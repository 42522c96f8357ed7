import Mathlib.Tactic.Tauto
import Tabletop.Proofs.Acceptance
import Tabletop.Proofs.RoundTrip

/-!
# Programs behind one another

Targets are offsets from the start of the code, so code cannot simply be put behind other code. But
an instruction at a higher offset is the same one except for its target, which is higher by as much
(`Program.layout_add`). So the code of tokens behind other tokens is the code that they have by
themselves with its targets moved, as long as these stay in reach, and otherwise there is no code
(`compile_append`).
-/

namespace Tabletop

/-! ## Moved instructions -/

namespace Instruction

/-- The instruction in code that lies `n` bytes further on. -/
def moved (n : Nat) : Instruction → Instruction
  | push literal => .push literal
  | exec name => .exec name
  | branch target => .branch (UInt16.ofNat (target.toNat + n))
  | jump target => .jump (UInt16.ofNat (target.toNat + n))

/-- The targets that the instructions carry. -/
def targets (instructions : List Instruction) : List UInt16 := instructions.filterMap target?

@[simp] theorem targets_append (front back : List Instruction) :
    targets (front ++ back) = targets front ++ targets back :=
  List.filterMap_append

@[simp] theorem targets_branch (target : UInt16) (rest : List Instruction) :
    targets (.branch target :: rest) = target :: targets rest := rfl

@[simp] theorem targets_jump (target : UInt16) (rest : List Instruction) :
    targets (.jump target :: rest) = target :: targets rest := rfl

@[simp] theorem targets_leaf (leaf : Leaf) : targets [leaf.instruction] = [] := by
  cases leaf <;> rfl

end Instruction

open Instruction (encodeAll decode targets)

private theorem ofNat_target_add (offset n : Nat) :
    UInt16.ofNat ((UInt16.ofNat offset).toNat + n) = UInt16.ofNat (offset + n) := by
  apply UInt16.toNat_inj.1
  simp

mutual

private theorem Item.layout_add (n : Nat) : ∀ (item : Item) (offset : Nat),
    item.layout (offset + n) = (item.layout offset).map (.moved n)
  | .leaf leaf, offset => by cases leaf <;> rfl
  | .ifThen body, offset => by
    have hbody := Program.layout_add n body (offset + branchSize)
    simp only [Item.layout, List.map_cons, Instruction.moved, ofNat_target_add,
      Nat.add_right_comm _ n, hbody]
  | .ifElse yes no, offset => by
    have hyes := Program.layout_add n yes (offset + branchSize)
    have hno := Program.layout_add n no (offset + branchSize + Program.size yes + jumpSize)
    simp only [Item.layout, List.map_cons, List.map_append, Instruction.moved, ofNat_target_add,
      Nat.add_right_comm _ n, hyes, hno]

/-- At a higher offset a program has the same instructions with higher targets. -/
theorem Program.layout_add (n : Nat) : ∀ (items : List Item) (offset : Nat),
    Program.layout (offset + n) items = (Program.layout offset items).map (.moved n)
  | [], offset => by simp [Program.layout]
  | item :: items, offset => by
    have hitems := Program.layout_add n items (offset + item.size)
    simp only [Program.layout, List.map_append, Item.layout_add n item, Nat.add_right_comm _ n,
      hitems]

end

/-- The code of a program behind another one. -/
theorem Program.code_append (front back : Program) :
    Program.code (front ++ back) =
      front.code ++ encodeAll ((Program.layout 0 back).map (.moved front.code.length)) := by
  have hback := Program.layout_add front.code.length back 0
  rw [Nat.zero_add] at hback
  rw [Program.code, Program.instructions_eq_layout, Program.layout_append,
    Instruction.encodeAll_append, Nat.zero_add, ← Program.length_code, hback, Program.code,
    Program.instructions_eq_layout]

/-! ## Targets and the tokens that fix them -/

private theorem destinations_append (offset : Nat) (front back : List Token) :
    destinations offset (front ++ back) =
      destinations offset front ++ destinations (offset + codeSize front) back := by
  induction front generalizing offset with
  | nil => simp [destinations]
  | cons token front ih =>
    rw [List.cons_append, destinations, destinations, ih, codeSize_cons, ← Nat.add_assoc]
    split <;> rfl

private theorem destinations_add (n offset : Nat) (tokens : List Token) :
    destinations (offset + n) tokens = (destinations offset tokens).map (· + n) := by
  induction tokens generalizing offset with
  | nil => rfl
  | cons token tokens ih =>
    rw [destinations, destinations, Nat.add_right_comm, ih]
    split <;> rfl

section Marks

variable {token : Token} {offset : Nat} {rest : List Token}

private theorem destinations_of_mark (h : token.Is "ELSE" ∨ token.Is "THEN") :
    destinations offset (token :: rest) =
      (offset + token.codeSize) :: destinations (offset + token.codeSize) rest := if_pos h

private theorem destinations_of_not_mark (h : ¬ (token.Is "ELSE" ∨ token.Is "THEN")) :
    destinations offset (token :: rest) = destinations (offset + token.codeSize) rest := if_neg h

private theorem destinations_leaf {leaf : Leaf} (h : token.Denotes leaf) :
    destinations offset (token :: rest) = destinations (offset + leaf.instruction.size) rest := by
  rw [destinations_of_not_mark (not_or.2 h.isLeaf.2), h.codeSize]

private theorem destinations_if (h : token.Is branchName) :
    destinations offset (token :: rest) = destinations (offset + branchSize) rest := by
  rw [destinations_of_not_mark (not_or.2 ⟨h.not (by decide), h.not (by decide)⟩), h.codeSize_if]

private theorem destinations_else (h : token.Is "ELSE") :
    destinations offset (token :: rest) =
      (offset + jumpSize) :: destinations (offset + jumpSize) rest := by
  rw [destinations_of_mark (.inl h), h.codeSize_else]

private theorem destinations_then (h : token.Is "THEN") :
    destinations offset (token :: rest) = offset :: destinations offset rest := by
  rw [destinations_of_mark (.inr h), h.codeSize_then, Nat.add_zero]

end Marks

section Spells

variable {tokens : List Token} {program : Program}

/-- The targets of a program are the offsets that its tokens fix. -/
theorem Spells.mem_targets (h : Spells tokens program) {offset : Nat} {target : UInt16} :
    target ∈ targets (Program.layout offset program) ↔
      target ∈ (destinations offset tokens).map UInt16.ofNat := by
  induction h generalizing offset with
  | nil => simp [Program.layout, targets, destinations]
  | leaf hleaf _ ih =>
    rw [Program.layout, Item.layout, destinations_leaf hleaf]
    simp only [Instruction.targets_append, Instruction.targets_leaf, List.nil_append]
    exact ih
  | ifThen hif hbody hthen _ ihbody ih =>
    rw [destinations_if hif, destinations_append, destinations_then hthen, ← hbody.size_eq,
      Program.layout, Item.layout, Item.size, ← Nat.add_assoc]
    simp only [List.cons_append, Instruction.targets_branch, Instruction.targets_append,
      List.map_append, List.map_cons, List.mem_append, List.mem_cons, ihbody, ih]
    tauto
  | ifElse hif hyes helse hno hthen _ ihyes ihno ih =>
    rw [destinations_if hif, destinations_append, destinations_else helse, destinations_append,
      destinations_then hthen, ← hyes.size_eq, ← hno.size_eq, Program.layout, Item.layout,
      Item.size, ← Nat.add_assoc, ← Nat.add_assoc, ← Nat.add_assoc]
    simp only [List.cons_append, List.append_assoc, Instruction.targets_branch,
      Instruction.targets_append, Instruction.targets_jump, List.map_append, List.map_cons,
      List.mem_append, List.mem_cons, ihyes, ihno, ih]
    tauto

/-- Tokens behind `n` bytes of code fix the targets of their program moved by `n`. -/
theorem Spells.mem_destinations (h : Spells tokens program) (hreach : InReach 0 tokens)
    {n destination : Nat} :
    destination ∈ destinations n tokens ↔
      ∃ target ∈ targets (Program.layout 0 program), destination = target.toNat + n := by
  have hmoved := destinations_add n 0 tokens
  rw [Nat.zero_add] at hmoved
  simp only [hmoved, h.mem_targets, List.mem_map]
  constructor
  · rintro ⟨d, hd, rfl⟩
    exact ⟨_, ⟨d, hd, rfl⟩, by rw [toNat_target (hreach d hd)]⟩
  · rintro ⟨_, ⟨d, hd, rfl⟩, rfl⟩
    exact ⟨d, hd, by rw [toNat_target (hreach d hd)]⟩

end Spells

/-! ## Offsets out of reach -/

namespace Draft

/-- Taking the tokens fails at one that fixes an offset out of reach. -/
def Overruns (draft : Draft) (tokens : List Token) : Prop :=
  ∃ destination ∈ destinations draft.offset tokens, farthestTarget < destination ∧
    tokens.foldlM step draft = .error (.programTooLarge destination)

variable {draft next : Draft} {token : Token} {front back rest : List Token}

theorem Overruns.append_left (h : draft.Overruns front) : draft.Overruns (front ++ back) := by
  obtain ⟨destination, hmem, hfar, hfold⟩ := h
  refine ⟨destination, ?_, hfar, ?_⟩
  · rw [destinations_append]
    exact List.mem_append_left _ hmem
  · rw [List.foldlM_append, hfold]
    rfl

theorem Overruns.append_right (hfront : front.foldlM step draft = .ok next)
    (hoffset : next.offset = draft.offset + codeSize front) (h : next.Overruns back) :
    draft.Overruns (front ++ back) := by
  obtain ⟨destination, hmem, hfar, hfold⟩ := h
  refine ⟨destination, ?_, hfar, (foldlM_append_of_ok hfront).trans hfold⟩
  rw [destinations_append, ← hoffset]
  exact List.mem_append_right _ hmem

theorem Overruns.cons (hstep : draft.step token = .ok next)
    (hoffset : next.offset = draft.offset + token.codeSize) (h : next.Overruns rest) :
    draft.Overruns (token :: rest) := by
  have hfold : [token].foldlM step draft = .ok next := by
    rw [foldlM_cons_of_ok hstep]
    rfl
  exact h.append_right hfold (by simpa using hoffset)

private theorem overruns_mark (hmark : token.Is "ELSE" ∨ token.Is "THEN")
    (hfar : farthestTarget < draft.offset + token.codeSize)
    (hstep : draft.step token = .error (.programTooLarge (draft.offset + token.codeSize))) :
    draft.Overruns (token :: rest) := by
  refine ⟨_, ?_, hfar, ?_⟩
  · rw [destinations_of_mark hmark]
    exact List.mem_cons_self
  · rw [List.foldlM_cons, hstep]
    rfl

private theorem overruns_else (h : token.Is "ELSE") {location : Location} {frames : List Frame}
    {before items : List Item} {offset : Nat} (hfar : farthestTarget < offset + jumpSize) :
    Overruns ⟨⟨location, before, none⟩ :: frames, items, offset⟩ (token :: rest) := by
  refine overruns_mark (.inl h) ?_ ?_
  · rwa [h.codeSize_else]
  · rw [step_else h, h.codeSize_else]
    exact (if_neg (by simp)).trans (if_neg (Nat.not_le_of_lt hfar))

private theorem overruns_then (h : token.Is "THEN") {frame : Frame} {frames : List Frame}
    {items : List Item} {offset : Nat} (hfar : farthestTarget < offset) :
    Overruns ⟨frame :: frames, items, offset⟩ (token :: rest) := by
  refine overruns_mark (.inr h) ?_ ?_
  · rwa [h.codeSize_then]
  · rw [step_then h, h.codeSize_then]
    exact if_neg (Nat.not_le_of_lt hfar)

/-- Tokens that spell a program stand in front of others. Either they are refused, or these are. -/
theorem Overruns.append {program : Program} (hfront : Spells front program)
    (hrefused : ¬ InReach draft.offset front → draft.Overruns front)
    (htaken : InReach draft.offset front → Overruns
      ⟨draft.frames, program.reverse ++ draft.items, draft.offset + codeSize front⟩ back) :
    draft.Overruns (front ++ back) := by
  by_cases hreach : InReach draft.offset front
  · exact (htaken hreach).append_right (foldlM_step_of_spells hfront draft hreach) rfl
  · exact (hrefused hreach).append_left

end Draft

/-- Tokens that spell a program are refused for an offset that they fix, if one is out of reach. -/
theorem Spells.overruns {tokens : List Token} {program : Program} (h : Spells tokens program)
    (draft : Draft) (hfar : ¬ InReach draft.offset tokens) : draft.Overruns tokens := by
  induction h generalizing draft with
  | nil => exact absurd (inReach_nil _) hfar
  | leaf hleaf _ ih =>
    simp only [InReach, destinations_leaf hleaf] at hfar
    exact .cons (Draft.step_leaf hleaf draft) (by rw [hleaf.codeSize]) (ih _ hfar)
  | ifThen hif hbody hthen _ ihbody ih =>
    simp only [InReach, destinations_if hif, destinations_append, destinations_then hthen,
      List.forall_mem_append, List.forall_mem_cons] at hfar
    refine .cons (Draft.step_if hif draft) (by rw [hif.codeSize_if]) ?_
    refine .append hbody (ihbody _) fun hinner => ?_
    refine (Nat.lt_or_ge farthestTarget _).elim (Draft.overruns_then hthen) fun hend => ?_
    refine .cons (Draft.step_eq_ok.2 (.closeIf hthen hend)) (by rw [hthen.codeSize_then]; rfl) ?_
    exact ih _ fun hrest => hfar ⟨hinner, hend, hrest⟩
  | ifElse hif hyes helse hno hthen _ ihyes ihno ih =>
    simp only [InReach, destinations_if hif, destinations_append, destinations_else helse,
      destinations_then hthen, List.forall_mem_append, List.forall_mem_cons] at hfar
    refine .cons (Draft.step_if hif draft) (by rw [hif.codeSize_if]) ?_
    refine .append hyes (ihyes _) fun hfirst => ?_
    refine (Nat.lt_or_ge farthestTarget _).elim (Draft.overruns_else helse) fun hmiddle => ?_
    refine .cons (Draft.step_eq_ok.2 (.orElse helse hmiddle)) (by rw [helse.codeSize_else]) ?_
    refine .append hno (ihno _) fun hsecond => ?_
    refine (Nat.lt_or_ge farthestTarget _).elim (Draft.overruns_then hthen) fun hend => ?_
    refine .cons (Draft.step_eq_ok.2 (.closeElse hthen hend)) (by rw [hthen.codeSize_then]; rfl) ?_
    exact ih _ fun hrest => hfar ⟨hfirst, hmiddle, hsecond, hend, hrest⟩

/-- The code of tokens behind others is the code of these, followed by the code that the tokens have
by themselves, in which every target is higher by the length of what stands in front of it, and
nothing else differs. If this puts a target out of reach, then there is no code. -/
theorem compile_append {a b : List Token} {first second : Code} (hfirst : compile a = .ok first)
    (hsecond : compile b = .ok second) :
    ∃ listing, decode second = .ok listing ∧ encodeAll (listing.map Prod.snd) = second ∧
      ((∀ target ∈ targets (listing.map Prod.snd),
          target.toNat + first.length ≤ farthestTarget) →
        compile (a ++ b) =
          .ok (first ++ encodeAll ((listing.map Prod.snd).map (.moved first.length)))) ∧
      ((∃ target ∈ targets (listing.map Prod.snd), farthestTarget < target.toNat + first.length) →
        ∃ target ∈ targets (listing.map Prod.snd), farthestTarget < target.toNat + first.length ∧
          compile (a ++ b) = .error (.programTooLarge (target.toNat + first.length))) := by
  obtain ⟨front, hfront, rfl⟩ := compile_eq_ok.1 hfirst
  obtain ⟨back, hback, rfl⟩ := compile_eq_ok.1 hsecond
  obtain ⟨hspells, hreach⟩ := Program.ofTokens_eq_ok.1 hfront
  obtain ⟨hspells', hreach'⟩ := Program.ofTokens_eq_ok.1 hback
  have hcode : back.code = encodeAll (Program.layout 0 back) := by
    rw [Program.code, Program.instructions_eq_layout]
  have hdecode : decode back.code = .ok (Instruction.numbered 0 (Program.layout 0 back)) :=
    Instruction.decode_eq_ok.2 ⟨_, (hspells'.sound hreach').encodable, hcode, rfl⟩
  refine ⟨_, hdecode, ?_⟩
  rw [Instruction.map_snd_numbered]
  have hboth := hspells.append hspells'
  -- What the tokens fix behind the others is what their targets are moved to.
  have hmoved : ∀ destination, destination ∈ destinations (0 + codeSize a) b ↔
      ∃ target ∈ targets (Program.layout 0 back),
        destination = target.toNat + front.code.length := by
    intro destination
    rw [Nat.zero_add, ← hspells.size_eq, ← Program.length_code]
    exact hspells'.mem_destinations hreach'
  refine ⟨hcode.symm, fun hnear => ?_, fun hfar => ?_⟩
  · have hall : InReach 0 (a ++ b) := by
      refine inReach_append.2 ⟨hreach, fun destination hmem => ?_⟩
      obtain ⟨target, htarget, rfl⟩ := (hmoved _).1 hmem
      exact hnear target htarget
    rw [← Program.code_append]
    exact compile_eq_ok.2 ⟨_, Program.ofTokens_eq_ok.2 ⟨hboth, hall⟩, rfl⟩
  · obtain ⟨target, htarget, hfar⟩ := hfar
    have hnot : ¬ InReach 0 (a ++ b) := fun hall =>
      Nat.not_le_of_lt hfar ((inReach_append.1 hall).2 _ ((hmoved _).2 ⟨target, htarget, rfl⟩))
    obtain ⟨destination, hmem, hbeyond, hfold⟩ := hboth.overruns Draft.empty hnot
    rw [destinations_append, List.mem_append] at hmem
    -- It is not fixed by the tokens in front, whose offsets are all in reach.
    have hlater := hmem.resolve_left fun hmem => Nat.not_le_of_lt hbeyond (hreach _ hmem)
    obtain ⟨target', htarget', rfl⟩ := (hmoved _).1 hlater
    refine ⟨target', htarget', hbeyond, compile_eq_error.2 ?_⟩
    rw [Program.ofTokens, hfold]
    rfl

/-- A program of one long text. -/
theorem exists_compile_replicate (n : Nat) :
    ∃ code, compile [.ofString (String.ofList (List.replicate n 'a')) .unspecified] = .ok code ∧
      code.length = n + 3 := by
  let text := String.ofList (List.replicate n 'a')
  have hdenotes : (Token.ofString text .unspecified).Denotes (.literal (.string text)) :=
    .string rfl rfl (by simp [text, List.mem_replicate])
  have hreach : InReach 0 [.ofString text .unspecified] := by
    rw [InReach, destinations_leaf hdenotes]
    simp [destinations]
  refine ⟨_, compile_eq_ok.2 ⟨_, Program.ofTokens_eq_ok.2 ⟨.leaf hdenotes .nil, hreach⟩, rfl⟩, ?_⟩
  have hsize : text.utf8ByteSize = n := by
    rw [← Text.length_utf8, Text.utf8_eq_flatMap, String.toList_ofList]
    simp [show 'a'.utf8Size = 1 from rfl]
  rw [Program.length_code]
  simp [Program.size, Item.size, Leaf.instruction, Instruction.size, Literal.size, hsize]

/-- A conditional behind a word, and behind a text that is too long for it. -/
theorem compile_append_conditional :
    let conditional : List Token :=
      [.ofWord "IF" .unspecified, .ofWord "ELSE" .unspecified, .ofWord "THEN" .unspecified]
    let text := String.ofList (List.replicate 65520 'a')
    compile ([.ofWord "DUP" .unspecified] ++ conditional) =
      .ok ([1, 68, 85, 80, 0] ++ encodeAll [.branch 18, .jump 18]) ∧
    compile ([.ofString text .unspecified] ++ conditional) = .error (.programTooLarge 65536) := by
  intro conditional text
  obtain ⟨second, hsecond, hdecode⟩ : ∃ code, compile conditional = .ok code ∧
      decode code = .ok [(0, .branch 13), (6, .jump 13)] := ⟨_, rfl, rfl⟩
  have htargets : targets [.branch 13, .jump 13] = [13, 13] := rfl
  constructor
  · have hfirst : compile [.ofWord "DUP" .unspecified] = .ok [1, 68, 85, 80, 0] := rfl
    obtain ⟨listing, hlisting, -, hnear, -⟩ := compile_append hfirst hsecond
    cases hlisting.symm.trans hdecode
    refine hnear fun target htarget => ?_
    obtain rfl : target = 13 := by simpa [htargets] using htarget
    decide
  · obtain ⟨first, hfirst, hlength⟩ := exists_compile_replicate 65520
    obtain ⟨listing, hlisting, -, -, hfar⟩ := compile_append hfirst hsecond
    cases hlisting.symm.trans hdecode
    rw [hlength] at hfar
    obtain ⟨target, htarget, -, herror⟩ := hfar ⟨13, by simp [htargets], by decide⟩
    obtain rfl : target = 13 := by simpa [htargets] using htarget
    exact herror

end Tabletop
