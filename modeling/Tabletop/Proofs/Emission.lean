import Tabletop.Program.Emit
import Tabletop.Proofs.Layout

/-!
# One pass is enough

Code that is written in one pass is the code of the program that the tokens spell. While tokens are
read, the code written so far is what a draft of the program lays out, but for the gaps: an open
conditional has one in its branch, or in its jump once an `ELSE` has been met (`Opens`). Every token
keeps this up (`Writes.step`), and at the end no gap is left (`emitCode_eq_compile`).
-/

namespace Tabletop

open Instruction

/-! ## Results that correspond -/

/-- Both fail with the same error, or both succeed with related results. -/
inductive Matches {ε α β : Type} (r : α → β → Prop) : Except ε α → Except ε β → Prop
  | ok {a : α} {b : β} : r a b → Matches r (.ok a) (.ok b)
  | error {e : ε} : Matches r (.error e) (.error e)

theorem Matches.foldlM {ε α β τ : Type} {r : α → β → Prop} {f : α → τ → Except ε α}
    {g : β → τ → Except ε β} (hstep : ∀ a b t, r a b → Matches r (f a t) (g b t))
    (ts : List τ) {a : α} {b : β} (h : r a b) : Matches r (ts.foldlM f a) (ts.foldlM g b) := by
  induction ts generalizing a b with
  | nil => exact .ok h
  | cons t ts ih =>
    rw [List.foldlM_cons, List.foldlM_cons]
    have ht := hstep a b t h
    generalize f a t = x at ht
    generalize g b t = y at ht
    cases ht with
    | ok h' => exact ih h'
    | error => exact .error

/-! ## Code in the making -/

/-- Code with items behind it, which are given newest first. -/
def written (front : Code) (items : List Item) : Code :=
  front ++ encodeAll (Program.layout front.length items.reverse)

private theorem written_nil (front : Code) : written front [] = front := List.append_nil front

private theorem length_written (front : Code) (items : List Item) :
    (written front items).length = front.length + Program.size items.reverse := by
  rw [written, List.length_append, Program.length_layout]

private theorem written_cons (front : Code) (item : Item) (items : List Item) :
    written front (item :: items) =
      written front items ++ encodeAll (item.layout (written front items).length) := by
  rw [length_written, written, List.reverse_cons, Program.layout_append, encodeAll_append,
    ← List.append_assoc]
  simp [written, Program.layout]

/-- The code up to the target of the branch that follows items. -/
def upToBranch (outer : Code) (before : List Item) : Code :=
  written outer before ++ encodeCall branchName

/-- The code up to the target of the jump that follows a branch and its body. -/
def upToJump (outer : Code) (before yes : List Item) : Code :=
  let front := written outer before
  let middle := front.length + branchSize + Program.size yes + jumpSize
  front ++ encode (.branch (UInt16.ofNat middle)) ++
    encodeAll (Program.layout (front.length + branchSize) yes) ++ encodeCall jumpName

/-- The open conditionals of a draft, the gaps of an emitter, and the code in front of the innermost
body. -/
inductive Opens : List Frame → List Gap → Code → Prop
  | nil : Opens [] [] []
  | branch {frames : List Frame} {gaps : List Gap} {outer called : Code} {before : List Item}
      {location : Location} : Opens frames gaps outer → called = upToBranch outer before →
      Opens (⟨location, before, none⟩ :: frames) (⟨called.length, none, location⟩ :: gaps)
        (called ++ [0, 0])
  | jump {frames : List Frame} {gaps : List Gap} {outer called : Code} {before yes : List Item}
      {location : Location} {branch : Nat} : Opens frames gaps outer →
      called = upToJump outer before yes →
      Opens (⟨location, before, some yes⟩ :: frames)
        (⟨branch, some called.length, location⟩ :: gaps) (called ++ [0, 0])

/-- The emitter has written what the draft lays out. -/
structure Writes (draft : Draft) (emitter : Emitter) : Prop where
  code : ∃ outer, Opens draft.frames emitter.gaps outer ∧ emitter.code = written outer draft.items
  offset : draft.offset = emitter.code.length

/-! ## One token -/

section Tokens

variable {draft : Draft} {emitter : Emitter} {token : Token}

/-- A gap is filled where it is. -/
theorem Emitter.fill_eq {front back : Code} (h : emitter.code = front ++ [0, 0] ++ back)
    (destination : Nat) :
    emitter.fill front.length destination = targetAt destination >>= fun target =>
      .ok { emitter with code := front ++ encodeTarget target ++ back } := by
  unfold fill
  refine bind_congr fun target => ?_
  simp [h]
  rfl

theorem Writes.leaf (h : Writes draft emitter) (leaf : Leaf) :
    Writes ⟨draft.frames, .leaf leaf :: draft.items, draft.offset + leaf.instruction.size⟩
      (emitter.emit leaf.instruction.encode) := by
  obtain ⟨outer, hopens, hcode⟩ := h.code
  refine ⟨⟨outer, hopens, ?_⟩, ?_⟩
  · rw [written_cons, ← hcode]
    simp [Emitter.emit, Item.layout, encodeAll]
  · simp [Emitter.emit, h.offset]

theorem Writes.openIf (h : Writes draft emitter) (location : Location) :
    Writes ⟨⟨location, draft.items, none⟩ :: draft.frames, [], draft.offset + branchSize⟩
      { (emitter.emitGap branchName).2 with
        gaps := ⟨(emitter.emitGap branchName).1, none, location⟩ :: emitter.gaps } := by
  obtain ⟨outer, hopens, hcode⟩ := h.code
  refine ⟨⟨_, .branch hopens (congrArg (· ++ encodeCall branchName) hcode), ?_⟩, ?_⟩
  · rw [written_nil]
    rfl
  · simp only [Emitter.emitGap, Emitter.emit, List.length_append, h.offset, Nat.add_assoc]
    rfl

/-- Where both need the same target, both fail or both go on. -/
theorem matches_targetAt {α β : Type} {r : α → β → Prop} {f : UInt16 → α} {g : UInt16 → β}
    (destination : Nat) (h : r (f (UInt16.ofNat destination)) (g (UInt16.ofNat destination))) :
    Matches r (targetAt destination >>= fun target => .ok (f target))
      (targetAt destination >>= fun target => .ok (g target)) := by
  unfold targetAt
  split
  · exact .ok h
  · exact .error

section Conditionals

variable {frames : List Frame} {gaps : List Gap} {outer called : Code} {location : Location}
  {before yes items : List Item} {offset : Nat}

/-- The first body begins behind the branch. -/
theorem length_upToBranch (outer : Code) (before : List Item) :
    (upToBranch outer before ++ [0, 0]).length = (written outer before).length + branchSize := by
  rw [upToBranch, List.length_append, List.length_append]
  rfl

/-- The second body begins behind the jump. -/
theorem length_upToJump (outer : Code) (before yes : List Item) :
    (upToJump outer before yes ++ [0, 0]).length =
      (written outer before).length + branchSize + Program.size yes + jumpSize := by
  simp only [upToJump, List.length_append, Program.length_layout, length_encode]
  rfl

private theorem length_fill (front back : Code) (target : UInt16) :
    (front ++ encodeTarget target ++ back).length = (front ++ [0, 0] ++ back).length := by
  simp [encodeTarget]

/-- What an `ELSE` writes ends where the branch leads, so the gap of the branch is filled. -/
theorem Writes.orElse (hopens : Opens frames gaps outer)
    (hcalled : called = upToBranch outer before)
    (hcode : emitter.code = written (called ++ [0, 0]) items)
    (hoffset : offset = emitter.code.length) :
    Matches Writes
      (targetAt (offset + jumpSize) >>= fun _ =>
        .ok ⟨⟨location, before, some items.reverse⟩ :: frames, [], offset + jumpSize⟩)
      ((emitter.emitGap jumpName).2.fill called.length (emitter.emitGap jumpName).2.code.length >>=
        fun filled => .ok { filled with
          gaps := ⟨called.length, some (emitter.emitGap jumpName).1, location⟩ :: gaps }) := by
  subst hcalled
  have hlength : (emitter.emitGap jumpName).2.code.length = offset + jumpSize := by
    simp only [Emitter.emitGap, Emitter.emit, List.length_append, hoffset, Nat.add_assoc]
    rfl
  have hmiddle : offset + jumpSize =
      (written outer before).length + branchSize + Program.size items.reverse + jumpSize := by
    rw [hoffset, hcode, length_written, length_upToBranch]
  have hemitted : (emitter.emitGap jumpName).2.code = upToBranch outer before ++ [0, 0] ++
      (encodeAll (Program.layout (upToBranch outer before ++ [0, 0]).length items.reverse) ++
        encodeCall jumpName ++ [0, 0]) := by
    simp [Emitter.emitGap, Emitter.emit, hcode, written]
  have hplace : (emitter.emitGap jumpName).1 = (upToJump outer before items.reverse).length := by
    have hjump := length_upToJump outer before items.reverse
    simp only [Emitter.emitGap, Emitter.emit, List.length_append] at hlength hjump ⊢
    omega
  rw [Emitter.fill_eq hemitted, hlength, bind_assoc]
  -- Up to the new gap, the code is now that of a conditional with its first body.
  refine matches_targetAt _ ⟨⟨upToJump outer before items.reverse ++ [0, 0], ?_, ?_⟩, ?_⟩
  · rw [hplace]
    exact .jump hopens rfl
  · rw [written_nil, length_upToBranch, hmiddle]
    simp [upToBranch, upToJump, encode]
  · rw [← hlength, hemitted]
    exact (length_fill _ _ _).symm

/-- The gap of the branch is filled where there is no second body. -/
theorem Writes.closeIf (hopens : Opens frames gaps outer)
    (hcalled : called = upToBranch outer before)
    (hcode : emitter.code = written (called ++ [0, 0]) items)
    (hoffset : offset = emitter.code.length) :
    Matches Writes
      (targetAt offset >>= fun _ => .ok ⟨frames, .ifThen items.reverse :: before, offset⟩)
      (emitter.fill called.length emitter.code.length >>= fun filled =>
        .ok { filled with gaps }) := by
  subst hcalled
  have hend : offset = (written outer before).length + branchSize + Program.size items.reverse := by
    rw [hoffset, hcode, length_written, length_upToBranch]
  rw [Emitter.fill_eq hcode, ← hoffset, bind_assoc]
  refine matches_targetAt _ ⟨⟨outer, hopens, ?_⟩, ?_⟩
  · rw [written_cons, Item.layout, encodeAll_cons, length_upToBranch, ← hend]
    simp [upToBranch, encode]
  · exact hoffset.trans ((congrArg List.length hcode).trans (length_fill _ _ _).symm)

/-- The gap of the jump is filled where there is one. -/
theorem Writes.closeElse (hopens : Opens frames gaps outer)
    (hcalled : called = upToJump outer before yes)
    (hcode : emitter.code = written (called ++ [0, 0]) items)
    (hoffset : offset = emitter.code.length) :
    Matches Writes
      (targetAt offset >>= fun _ => .ok ⟨frames, .ifElse yes items.reverse :: before, offset⟩)
      (emitter.fill called.length emitter.code.length >>= fun filled =>
        .ok { filled with gaps }) := by
  subst hcalled
  have hend : offset = (written outer before).length + branchSize + Program.size yes + jumpSize +
      Program.size items.reverse := by
    rw [hoffset, hcode, length_written, length_upToJump]
  rw [Emitter.fill_eq hcode, ← hoffset, bind_assoc]
  refine matches_targetAt _ ⟨⟨outer, hopens, ?_⟩, ?_⟩
  · rw [written_cons, Item.layout, encodeAll_cons, encodeAll_append, encodeAll_cons,
      length_upToJump, ← hend]
    simp [upToJump, encode]
  · exact hoffset.trans ((congrArg List.length hcode).trans (length_fill _ _ _).symm)

end Conditionals

theorem Writes.step (h : Writes draft emitter) (token : Token) :
    Matches Writes (draft.step token) (emitter.step token) := by
  unfold Draft.step Emitter.step
  cases Part.ofToken token with
  | error e => exact .error
  | ok part =>
    cases part with
    | leaf leaf => exact .ok (h.leaf leaf)
    | openIf => exact .ok (h.openIf token.location)
    | orElse =>
      obtain ⟨frames, items, offset⟩ := draft
      obtain ⟨code, gaps⟩ := emitter
      obtain ⟨⟨outer, hopens, hcode⟩, hoffset⟩ := h
      cases hopens with
      | nil => exact .error
      | branch hopens hcalled => exact Writes.orElse hopens hcalled hcode hoffset
      | jump hopens hcalled => exact .error
    | closeIf =>
      obtain ⟨frames, items, offset⟩ := draft
      obtain ⟨code, gaps⟩ := emitter
      obtain ⟨⟨outer, hopens, hcode⟩, hoffset⟩ := h
      cases hopens with
      | nil => exact .error
      | branch hopens hcalled => exact Writes.closeIf hopens hcalled hcode hoffset
      | jump hopens hcalled => exact Writes.closeElse hopens hcalled hcode hoffset

end Tokens

/-! ## All tokens -/

theorem Writes.finish {draft : Draft} {emitter : Emitter} (h : Writes draft emitter) :
    (draft.finish >>= fun program => .ok program.code) = emitter.finish := by
  obtain ⟨frames, items, offset⟩ := draft
  obtain ⟨code, gaps⟩ := emitter
  obtain ⟨⟨outer, hopens, hcode⟩, -⟩ := h
  cases hopens with
  | nil =>
    have hcode : code = written [] items := hcode
    rw [hcode]
    change Except.ok (Program.code items.reverse) = .ok _
    rw [Program.code, Program.instructions_eq_layout]
    rfl
  | branch => rfl
  | jump => rfl

/-- Writing in one pass gives the code of the program, or the same error. -/
theorem emitCode_eq_compile (tokens : List Token) : emitCode tokens = compile tokens := by
  have hempty : Writes .empty .empty := ⟨⟨[], .nil, rfl⟩, rfl⟩
  have hmatches := Matches.foldlM (fun _ _ token h => Writes.step h token) tokens hempty
  unfold emitCode compile Program.ofTokens
  generalize tokens.foldlM Draft.step .empty = x at hmatches
  generalize tokens.foldlM Emitter.step .empty = y at hmatches
  cases hmatches with
  | ok h => exact h.finish.symm
  | error => rfl

end Tabletop
