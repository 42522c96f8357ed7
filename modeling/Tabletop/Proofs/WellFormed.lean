import Tabletop.Proofs.Acceptance
import Tabletop.Proofs.Loop

/-!
# Well-formed code

Code is well formed if it can be decoded from the front and every target is the start of an
instruction or the end of the code, and lies ahead (`WellFormed`). Compiled code is. A run of code
that is well formed stays on the starts of instructions (`runStep_ready`), so it can fail only by
what its words do.
-/

namespace Tabletop

/-- The code can be decoded from its start, and every target is the offset of an instruction or the
end of the code, and not in front of the end of the instruction that carries it. -/
def WellFormed (code : Code) : Prop :=
  ∃ listing, Instruction.decode code = .ok listing ∧
    ∀ entry ∈ listing, ∀ target, entry.2.target? = some target →
      entry.1 + entry.2.size ≤ target.toNat ∧
        (target.toNat ∈ listing.map Prod.fst ∨ target.toNat = code.length)

namespace Instruction

variable {offset stop : Nat} {instructions front back : List Instruction}

/-! ## Targets that lie ahead -/

/-- Every target leads past some of the instructions that follow its own, where the first
instruction has the given offset. -/
def Aimed : Nat → List Instruction → Prop
  | _, [] => True
  | offset, instruction :: rest =>
    (∀ target, instruction.target? = some target →
      ∃ skipped left, rest = skipped ++ left ∧
        target.toNat = offset + instruction.size + (encodeAll skipped).length) ∧
    Aimed (offset + instruction.size) rest

private theorem aimed_append (hfront : Aimed offset front)
    (hback : Aimed (offset + (encodeAll front).length) back) : Aimed offset (front ++ back) := by
  induction front generalizing offset with
  | nil => exact hback
  | cons instruction rest ih =>
    obtain ⟨htarget, hrest⟩ := hfront
    rw [encodeAll_cons, List.length_append, length_encode, ← Nat.add_assoc] at hback
    refine ⟨fun target h => ?_, ih hrest hback⟩
    obtain ⟨skipped, left, rfl, heq⟩ := htarget target h
    exact ⟨skipped, left ++ back, List.append_assoc .., heq⟩

/-- What is left after some instructions still has its targets ahead. -/
theorem Aimed.drop (h : Aimed offset (front ++ back)) :
    Aimed (offset + (encodeAll front).length) back := by
  induction front generalizing offset with
  | nil => exact h
  | cons instruction rest ih =>
    rw [encodeAll_cons, List.length_append, length_encode, ← Nat.add_assoc]
    exact ih h.2

private theorem le_of_mem_numbered {entry : Nat × Instruction}
    (h : entry ∈ numbered offset instructions) :
    offset ≤ entry.1 := by
  induction instructions generalizing offset with
  | nil => cases h
  | cons instruction rest ih =>
    rcases List.mem_cons.1 h with rfl | hrest
    · exact Nat.le_refl _
    · exact Nat.le_trans (Nat.le_add_right _ _) (ih hrest)

/-- The starts of instructions and the end are the places behind some of the instructions. -/
theorem start_or_end_iff :
    (stop ∈ (numbered offset instructions).map Prod.fst ∨
      stop = offset + (encodeAll instructions).length) ↔
    ∃ skipped left, instructions = skipped ++ left ∧
      stop = offset + (encodeAll skipped).length := by
  induction instructions generalizing offset with
  | nil =>
    constructor
    · rintro (hmem | rfl)
      · cases hmem
      · exact ⟨[], [], rfl, rfl⟩
    · rintro ⟨skipped, left, hnil, rfl⟩
      obtain ⟨rfl, rfl⟩ := List.append_eq_nil_iff.1 hnil.symm
      exact .inr rfl
  | cons instruction rest ih =>
    have hsplit : (stop ∈ (numbered offset (instruction :: rest)).map Prod.fst ∨
        stop = offset + (encodeAll (instruction :: rest)).length) ↔
        stop = offset ∨ (stop ∈ (numbered (offset + instruction.size) rest).map Prod.fst ∨
          stop = offset + instruction.size + (encodeAll rest).length) := by
      rw [numbered, List.map_cons, List.mem_cons, encodeAll_cons, List.length_append, length_encode,
        ← Nat.add_assoc, or_assoc]
    rw [hsplit, ih]
    constructor
    · rintro (rfl | ⟨skipped, left, rfl, rfl⟩)
      · exact ⟨[], _, rfl, rfl⟩
      · refine ⟨instruction :: skipped, left, rfl, ?_⟩
        rw [encodeAll_cons, List.length_append, length_encode, Nat.add_assoc]
    · rintro ⟨skipped, left, hcons, rfl⟩
      cases skipped with
      | nil => exact .inl rfl
      | cons first skipped =>
        cases hcons
        refine .inr ⟨skipped, left, rfl, ?_⟩
        rw [encodeAll_cons, List.length_append, length_encode, Nat.add_assoc]

/-- Targets lie ahead exactly if each is the start of an instruction or the end, and not in front of
the end of its own instruction. -/
theorem aimed_iff : Aimed offset instructions ↔
    ∀ entry ∈ numbered offset instructions, ∀ target, entry.2.target? = some target →
      entry.1 + entry.2.size ≤ target.toNat ∧
        (target.toNat ∈ (numbered offset instructions).map Prod.fst ∨
          target.toNat = offset + (encodeAll instructions).length) := by
  induction instructions generalizing offset with
  | nil => simp [Aimed, numbered]
  | cons instruction rest ih =>
    -- A target beyond the first instruction does not lead to its start.
    have hbeyond : ∀ stop, offset + instruction.size ≤ stop →
        ((stop ∈ (numbered offset (instruction :: rest)).map Prod.fst ∨
          stop = offset + (encodeAll (instruction :: rest)).length) ↔
        (stop ∈ (numbered (offset + instruction.size) rest).map Prod.fst ∨
          stop = offset + instruction.size + (encodeAll rest).length)) := by
      intro stop hle
      have hne : stop ≠ offset := by
        have := instruction.size_pos
        omega
      rw [numbered, List.map_cons, List.mem_cons, encodeAll_cons, List.length_append, length_encode,
        ← Nat.add_assoc]
      simp only [hne, false_or]
    rw [Aimed, ih, numbered, List.forall_mem_cons, ← numbered]
    constructor
    · rintro ⟨hfirst, hrest⟩
      refine ⟨fun target htarget => ?_, fun entry hmem target htarget => ?_⟩
      · obtain ⟨skipped, left, hskipped, heq⟩ := hfirst target htarget
        have hle : offset + instruction.size ≤ target.toNat := by omega
        exact ⟨hle, (hbeyond _ hle).2 (start_or_end_iff.2 ⟨skipped, left, hskipped, heq⟩)⟩
      · obtain ⟨hle, hstop⟩ := hrest entry hmem target htarget
        have hoffset := le_of_mem_numbered hmem
        exact ⟨hle, (hbeyond _ (by omega)).2 hstop⟩
    · rintro ⟨hfirst, hrest⟩
      refine ⟨fun target htarget => ?_, fun entry hmem target htarget => ?_⟩
      · obtain ⟨hle, hstop⟩ := hfirst target htarget
        exact start_or_end_iff.1 ((hbeyond _ hle).1 hstop)
      · obtain ⟨hle, hstop⟩ := hrest entry hmem target htarget
        have hoffset := le_of_mem_numbered hmem
        exact ⟨hle, (hbeyond _ (by omega)).1 hstop⟩

end Instruction

open Instruction

open Exec (jumpTo popBool)

/-- Code is well formed exactly if it is that of instructions that can be read back and whose
targets lie ahead. -/
theorem wellFormed_iff {code : Code} :
    WellFormed code ↔ ∃ instructions, (∀ i ∈ instructions, i.Encodable) ∧
      code = encodeAll instructions ∧ Aimed 0 instructions := by
  constructor
  · rintro ⟨listing, hdecode, htargets⟩
    obtain ⟨instructions, hencodable, rfl, rfl⟩ := decode_eq_ok.1 hdecode
    refine ⟨instructions, hencodable, rfl, aimed_iff.2 ?_⟩
    simpa only [Nat.zero_add] using htargets
  · rintro ⟨instructions, hencodable, rfl, haimed⟩
    refine ⟨numbered 0 instructions, decode_eq_ok.2 ⟨instructions, hencodable, rfl, rfl⟩, ?_⟩
    simpa only [Nat.zero_add] using aimed_iff.1 haimed

/-! ## Compiled code -/

mutual

private theorem Item.Sound.aimed : ∀ {item : Item} {offset : Nat}, item.Sound offset →
    Aimed offset (item.layout offset)
  | .leaf leaf, offset, _ => by
    rw [Item.layout]
    refine ⟨fun target htarget => ?_, trivial⟩
    cases leaf <;> cases htarget
  | .ifThen body, offset, h => by
    rw [Item.Sound] at h
    rw [Item.layout]
    refine ⟨fun target htarget => ?_, Program.Sound.aimed h.1⟩
    cases htarget
    refine ⟨Program.layout (offset + branchSize) body, [], (List.append_nil _).symm, ?_⟩
    rw [toNat_target h.2, Program.length_layout]
    rfl
  | .ifElse yes no, offset, h => by
    rw [Item.Sound] at h
    obtain ⟨hyes, hmiddle, hno, hend⟩ := h
    rw [Item.layout]
    refine ⟨fun target htarget => ?_, aimed_append (Program.Sound.aimed hyes) ?_⟩
    · cases htarget
      refine ⟨_, _, List.append_cons .., ?_⟩
      rw [toNat_target hmiddle, encodeAll_append, List.length_append, Program.length_layout]
      simp [branchSize, jumpSize, Instruction.size, Nat.add_assoc]
    · rw [Program.length_layout]
      refine ⟨fun target htarget => ?_, Program.Sound.aimed hno⟩
      cases htarget
      refine ⟨_, [], (List.append_nil _).symm, ?_⟩
      rw [toNat_target hend, Program.length_layout]
      rfl

private theorem Program.Sound.aimed :
    ∀ {items : List Item} {offset : Nat}, Program.Sound offset items →
    Aimed offset (Program.layout offset items)
  | [], _, _ => by rw [Program.layout]; exact trivial
  | item :: items, offset, h => by
    rw [Program.Sound] at h
    rw [Program.layout]
    refine aimed_append (Item.Sound.aimed h.1) ?_
    rw [Item.length_layout]
    exact Program.Sound.aimed h.2

end

theorem wellFormed_of_compile {tokens : List Token} {code : Code} (h : compile tokens = .ok code) :
    WellFormed code := by
  obtain ⟨program, hprogram, rfl⟩ := compile_eq_ok.1 h
  obtain ⟨hspells, hreach⟩ := Program.ofTokens_eq_ok.1 hprogram
  have hsound := hspells.sound hreach
  refine wellFormed_iff.2 ⟨Program.layout 0 program, hsound.encodable, ?_, hsound.aimed⟩
  rw [Program.code, Program.instructions_eq_layout]

/-! ## Runs of well-formed code -/

/-- The machine knows the words of the given families, stands at the start of an instruction, and
has targets ahead only. -/
structure Machine.Ready (machine : Machine) (groups : List Builtin.Group)
    (instructions : List Instruction) : Prop where
  dictionary : machine.dictionary = .ofGroups groups
  code : ∃ cursor, machine.code = some cursor ∧ LeftToRead cursor instructions ∧
    Aimed cursor.position instructions

/-- The run stops, if at all, by what the program does. -/
def EndsByProgram (result : EStateM.Result Stop Machine Unit) : Prop :=
  match result with
  | .ok _ _ => True
  | .error stop _ => stop.OfProgram

/-- The machine is ready for what is left after some of the instructions, or the program has come to
its end. -/
def ReadyAfter (groups : List Builtin.Group) (instructions : List Instruction)
    (result : EStateM.Result Stop Machine Unit) : Prop :=
  match result with
  | .ok _ machine => ∃ skipped left, instructions = skipped ++ left ∧ machine.Ready groups left
  | .error stop _ => stop.OfProgram

section Runs

variable {groups : List Builtin.Group} {machine : Machine} {depth : Nat}
  {instructions skipped left : List Instruction} {cursor : Cursor UInt8}

theorem LeftToRead.drop (h : LeftToRead cursor (skipped ++ left))
    (haimed : Aimed cursor.position (skipped ++ left)) :
    ∃ cursor', cursor.Past (encodeAll skipped) cursor' ∧ LeftToRead cursor' left ∧
      Aimed cursor'.position left := by
  have hrest := h.rest
  rw [encodeAll_append] at hrest
  obtain ⟨cursor', hpast, hrest'⟩ := Cursor.exists_past hrest
  refine ⟨cursor', hpast, ⟨fun i hi => h.encodable i (List.mem_append_right _ hi), hrest'⟩, ?_⟩
  rw [hpast.position]
  exact haimed.drop

private theorem Machine.Ready.stays {machine' : Machine} (h : machine.Ready groups instructions)
    (hstays : machine.Stays machine') : machine'.Ready groups instructions :=
  ⟨hstays.dictionary.trans h.dictionary, hstays.code ▸ h.code⟩

/-- A word that does not steer the run leaves the machine ready for what follows. -/
theorem run_ready {b : Builtin} (hsteers : ¬ b.Steers) (h : machine.Ready groups instructions)
    (word : Option String) :
    ReadyAfter groups instructions (restoreWord word (b.run machine)) := by
  have hsteady := Builtin.run_stays hsteers
  cases hrun : b.run machine with
  | error stop machine' => exact (hsteady.error hrun).2
  | ok u machine' =>
    have hready := h.stays (hsteady.ok hrun)
    exact ⟨[], instructions, rfl, hready.dictionary, hready.code⟩

/-- A jump past some instructions leaves the machine ready for those that are left. -/
theorem jumpTo_ready {target : Nat} (h : machine.Ready groups (skipped ++ left))
    (hcode : machine.code = some cursor)
    (htarget : target = cursor.position + (encodeAll skipped).length) (word : Option String) :
    ReadyAfter groups (skipped ++ left) (restoreWord word (jumpTo target machine)) := by
  obtain ⟨cursor', hcode', hleft, haimed⟩ := h.code
  obtain rfl : cursor' = cursor := Option.some.inj (hcode'.symm.trans hcode)
  obtain ⟨reached, hpast, hleft', haimed'⟩ := LeftToRead.drop hleft haimed
  rw [htarget, ← hpast.position, jumpTo_of_ahead hcode hpast.ahead]
  exact ⟨skipped, left, rfl, h.dictionary, reached, rfl, hleft', haimed'⟩

/-- A branch goes on behind its target or behind itself, whatever the flag. -/
theorem branch_ready {target : Nat} (h : machine.Ready groups (skipped ++ left))
    (hcode : machine.code = some cursor)
    (htarget : target = cursor.position + (encodeAll skipped).length) (word : Option String) :
    ReadyAfter groups (skipped ++ left) (restoreWord word
      ((popBool >>= fun flag => if !flag then jumpTo target else pure ()) machine)) := by
  cases hpop : popBool machine with
  | error stop machine' =>
    rw [bind_eq_of_error hpop]
    exact (popBool_stays.error hpop).2
  | ok flag machine' =>
    have hstays := popBool_stays.ok hpop
    have hready := h.stays hstays
    rw [bind_eq_of_ok hpop]
    cases flag with
    | false => exact jumpTo_ready hready (hstays.code.trans hcode) htarget word
    | true => exact ⟨[], _, rfl, hready.dictionary, hready.code⟩

/-- One instruction leaves the machine ready for what is left after some that follow. -/
theorem runStep_ready {instruction : Instruction} {rest : List Instruction}
    (h : machine.Ready groups (instruction :: rest)) :
    ReadyAfter groups rest (runStep (invoke (depth + 1)) machine) := by
  obtain ⟨cursor, hcode, hleft, haimed⟩ := h.code
  have hencodable := hleft.encodable instruction List.mem_cons_self
  obtain ⟨cursor', hpast, hleft', haimed'⟩ :=
    @LeftToRead.drop [instruction] rest cursor hleft haimed
  rw [encodeAll_cons, encodeAll_nil, List.append_nil] at hpast
  have hposition := hpast.position
  rw [length_encode] at hposition
  have hready : ∀ name, (machine.inWord name cursor cursor').Ready groups rest := fun _ =>
    ⟨h.dictionary, cursor', rfl, hleft', haimed'⟩
  cases instruction with
  | push literal =>
    rw [runStep_push hcode hencodable hpast]
    exact ⟨[], rest, rfl, h.dictionary, cursor', rfl, hleft', haimed'⟩
  | exec name =>
    cases hfind : machine.dictionary.find? name with
    | none =>
      rw [runStep_unknown hcode hencodable.1 hpast hfind]
      exact trivial
    | some word =>
      obtain ⟨b, rfl, hname⟩ := Dictionary.eq_word_of_find?_ofGroups (h.dictionary ▸ hfind)
      -- Read back as a plain call, the name is none of the two that steer the run.
      have hsteers : ¬ b.Steers := by
        rintro (rfl | rfl)
        · exact hencodable.2.1 hname.symm
        · exact hencodable.2.2 hname.symm
      rw [runStep_builtin hcode hencodable.1 hpast hfind]
      exact run_ready hsteers (hready name) machine.word
  | branch target =>
    cases hfind : machine.dictionary.find? branchName with
    | none =>
      obtain ⟨middle, hcall, _⟩ := Cursor.past_append.1 hpast
      rw [runStep_unknown hcode isName_branchName hcall hfind]
      exact trivial
    | some word =>
      obtain ⟨b, rfl, hname⟩ := Dictionary.eq_word_of_find?_ofGroups (h.dictionary ▸ hfind)
      obtain rfl : b = .branch := Builtin.name_injective hname
      obtain ⟨skipped, left, rfl, htarget⟩ := haimed.1 target rfl
      rw [runStep_branch hcode hpast hfind]
      exact branch_ready (hready branchName) rfl (hposition ▸ htarget) machine.word
  | jump target =>
    cases hfind : machine.dictionary.find? jumpName with
    | none =>
      obtain ⟨middle, hcall, _⟩ := Cursor.past_append.1 hpast
      rw [runStep_unknown hcode isName_jumpName hcall hfind]
      exact trivial
    | some word =>
      obtain ⟨b, rfl, hname⟩ := Dictionary.eq_word_of_find?_ofGroups (h.dictionary ▸ hfind)
      obtain rfl : b = .jump := Builtin.name_injective hname
      obtain ⟨skipped, left, rfl, htarget⟩ := haimed.1 target rfl
      rw [runStep_jump hcode hpast hfind]
      exact jumpTo_ready (hready jumpName) rfl (hposition ▸ htarget) machine.word

/-- A run from the start of an instruction to the end stops only by what the program does. -/
theorem runRest_ready (h : machine.Ready groups instructions) :
    EndsByProgram (runRest (invoke (depth + 1)) machine) := by
  -- Jumps skip instructions, so the induction is on the number of those that are left.
  induction hlength : instructions.length using Nat.strongRecOn
    generalizing machine instructions with
  | _ length ih =>
    obtain ⟨cursor, hcode, hleft, _⟩ := h.code
    cases instructions with
    | nil =>
      rw [runRest_of_end hcode (Cursor.rest_eq_nil_iff.1 hleft.rest)]
      exact trivial
    | cons instruction rest =>
      obtain ⟨cursor', hread, _⟩ := leftToRead_cons.1 hleft
      have hmore := (read_eq_ok.1 hread).2.hasNext instruction.encode_ne_nil
      have hstep := @runStep_ready groups machine depth instruction rest h
      cases hrun : runStep (invoke (depth + 1)) machine with
      | error stop machine' =>
        rw [hrun] at hstep
        rw [runRest_of_stop (invoke_keeps _) hcode hmore hrun]
        exact hstep
      | ok u machine' =>
        rw [hrun] at hstep
        obtain ⟨skipped, left, rfl, hready⟩ := hstep
        rw [runRest_of_step (invoke_keeps _) hcode hmore hrun]
        refine ih left.length ?_ hready rfl
        rw [← hlength, List.length_cons, List.length_append]
        omega

end Runs

/-- Compiled code is well formed. A run of well-formed code, with any of the families of built-in
words, ends in success or with an error of what its words do: an unknown word, an empty stack, a
value of the wrong kind, a word that gives up, or output that fails. -/
theorem wellFormed_runs :
    (∀ tokens code, compile tokens = .ok code → WellFormed code) ∧
    (∀ code groups depth (machine : Machine), WellFormed code →
      machine.dictionary = .ofGroups groups →
      EndsByProgram (Exec.runCode (invoke (depth + 1)) code machine)) := by
  refine ⟨fun tokens code h => wellFormed_of_compile h, ?_⟩
  intro code groups depth machine h hwords
  obtain ⟨instructions, hencodable, rfl, haimed⟩ := wellFormed_iff.1 h
  have hready : (machine.enter (encodeAll instructions)).Ready groups instructions :=
    ⟨hwords, _, rfl, ⟨hencodable, rfl⟩, haimed⟩
  have hend := @runRest_ready groups _ depth _ hready
  rw [runCode_eq_runRest]
  cases hrun : runRest (invoke (depth + 1)) (machine.enter (encodeAll instructions)) with
  | ok u after => exact trivial
  | error stop after =>
    rw [hrun] at hend
    cases stop with
    | failed e => exact hend
    | outOfFuel => exact hend

/-- A conditional whose last word is not among the known ones. -/
theorem wellFormed_runs_unknown :
    let tokens : List Token := [.ofBool false .unspecified, .ofWord "IF" .unspecified,
      .ofWord "ELSE" .unspecified, .ofWord "THEN" .unspecified, .ofWord "+" .unspecified]
    let machine := Machine.start (.ofGroups [.control]) .standard (.empty [])
    ∃ code, compile tokens = .ok code ∧ WellFormed code ∧
      EndsByProgram (Exec.runCode (invoke 1) code machine) := by
  intro tokens machine
  obtain ⟨code, hcompile⟩ : ∃ code, compile tokens = .ok code := ⟨[0, 2, 0, 1, 73, 70, 0, 0, 16,
    1, 74, 77, 80, 0, 0, 16, 1, 43, 0], rfl⟩
  have hwell := wellFormed_runs.1 tokens code hcompile
  exact ⟨code, hcompile, hwell, wellFormed_runs.2 code [.control] 0 machine hwell rfl⟩

end Tabletop
