import Tabletop.Proofs.Context

/-!
# The loop, instruction by instruction

`runRest` carries on to the end of the running code, however long that takes. Since words keep the
context, every instruction moves ahead, so that as many steps as there are bytes left are enough
(`runLoop_eq_of_le`), and `runRest` obeys the equations of a loop without a limit. The rest of this
module says what a single instruction does.
-/

namespace Tabletop

open Exec

/-! ## Built-in words by name -/

namespace Builtin

/-- All built-in words. -/
def all : List Builtin := Group.all.flatMap Group.words

/-- The built-in word of the given name. -/
def ofName? (name : String) : Option Builtin := all.find? (·.name == name)

@[simp] theorem ofName?_name (b : Builtin) : ofName? b.name = some b := by
  cases b <;> decide

theorem name_injective {a b : Builtin} (h : a.name = b.name) : a = b := by
  have hfind := ofName?_name a
  rw [h, ofName?_name] at hfind
  exact (Option.some.inj hfind).symm

theorem ofName?_eq_some {name : String} {b : Builtin} : ofName? name = some b ↔ name = b.name :=
  find?_code_eq_some ofName?_name

end Builtin

namespace Dictionary

private theorem find?_foldl_insert (words : List Builtin) (dictionary : Dictionary)
    (name : String) :
    (words.foldl (fun d b => d.insert b.name b.word) dictionary).find? name =
      ((words.find? (·.name == name)).map Builtin.word).or (dictionary.find? name) := by
  induction words generalizing dictionary with
  | nil => simp
  | cons b words ih =>
    rw [List.foldl_cons, ih, List.find?_cons]
    by_cases hname : b.name = name
    · subst hname
      rw [beq_self_eq_true, find?_insert_self]
      -- A later word of the same name is the same word.
      cases hfind : words.find? (·.name == b.name) with
      | none => simp
      | some b' =>
        have hb' := List.find?_some hfind
        obtain rfl : b' = b := Builtin.name_injective (by simpa using hb')
        simp
    · have hbeq : (b.name == name) = false := by simpa using hname
      rw [hbeq, find?_insert_of_ne dictionary b.word hname]

private theorem find?_ofGroups (groups : List Builtin.Group) (name : String) :
    (ofGroups groups).find? name =
      ((groups.flatMap Builtin.Group.words).find? (·.name == name)).map Builtin.word := by
  rw [ofGroups, find?_foldl_insert]
  simp

/-- Every word of a dictionary of built-in words is found under its own name. -/
theorem eq_word_of_find?_ofGroups {groups : List Builtin.Group} {name : String} {word : Word}
    (h : (ofGroups groups).find? name = some word) :
    ∃ b : Builtin, word = b.word ∧ b.name = name := by
  rw [find?_ofGroups] at h
  obtain ⟨b, hfind, rfl⟩ := Option.map_eq_some_iff.1 h
  have hname := List.find?_some hfind
  exact ⟨b, rfl, by simpa using hname⟩

theorem find?_all (name : String) :
    (ofGroups Builtin.Group.all).find? name = (Builtin.ofName? name).map Builtin.word :=
  find?_ofGroups Builtin.Group.all name

end Dictionary

/-! ## The rest of a run -/

/-- How many bytes of the running code are left to read. -/
def Machine.remaining (machine : Machine) : Nat := (machine.code.map Cursor.remaining).getD 0

/-- Carry on to the end of the running code. -/
def runRest (call : String → Exec Unit) : Exec Unit := fun machine =>
  runLoop call machine.remaining machine

private theorem remaining_le_of_rel {a b : Option (Cursor UInt8)}
    (h : Option.Rel Cursor.Ahead a b) :
    (b.map Cursor.remaining).getD 0 ≤ (a.map Cursor.remaining).getD 0 := by
  cases h with
  | none => exact Nat.le_refl _
  | some hahead =>
    have hsize := hahead.size
    have hposition := hahead.2.1
    simp only [Option.map_some, Option.getD_some, Cursor.remaining]
    omega

section Rest

variable {call : String → Exec Unit} {machine machine' : Machine} {cursor cursor' : Cursor UInt8}

theorem Machine.remaining_of_code (h : machine.code = some cursor) :
    machine.remaining = cursor.remaining := by
  simp [Machine.remaining, h]

theorem Machine.remaining_pos (h : machine.code = some cursor) (hmore : cursor.hasNext = true) :
    0 < machine.remaining := by
  rw [Machine.remaining_of_code h]
  exact Cursor.hasNext_iff.1 hmore

private theorem readCode_of_ok {α : Type} {read : Cursor.Read UInt8 α} {a : α}
    (h : machine.code = some cursor) (hread : read cursor = .ok a cursor') :
    readCode read machine = .ok a { machine with code := some cursor' } := by
  simp only [readCode, h, hread]

theorem readCode_of_error {α : Type} {read : Cursor.Read UInt8 α} {e : DecodeError}
    (h : machine.code = some cursor) (hread : read cursor = .error e cursor') :
    readCode read machine = .error (.failed (.decode e)) { machine with code := some cursor' } := by
  simp only [readCode, h, hread]

theorem hasCode_of_code (h : machine.code = some cursor) :
    hasCode machine = .ok cursor.hasNext machine := by
  simp only [hasCode, readCode, h]
  rw [← h]

private theorem position?_of_code (h : machine.code = some cursor) :
    position? machine = .ok (some cursor.position) machine := by
  have hposition : position? machine = .ok (machine.code.map Cursor.position) machine := rfl
  rw [hposition, h, Option.map_some]

theorem runStep_of_read {head : Instruction.Head} (h : machine.code = some cursor)
    (hread : Instruction.readHead cursor = .ok head cursor') :
    runStep call machine =
      carryOut call cursor.position head { machine with code := some cursor' } := by
  rw [runStep_eq, bind_eq_of_ok (position?_of_code h), bind_eq_of_ok (readCode_of_ok h hread)]
  rfl

theorem runStep_of_unreadable {e : DecodeError} (h : machine.code = some cursor)
    (hread : Instruction.readHead cursor = .error e cursor') :
    runStep call machine = .error (.failed (.decode e)) { machine with code := some cursor' } := by
  rw [runStep_eq, bind_eq_of_ok (position?_of_code h), bind_eq_of_error (readCode_of_error h hread)]

theorem Machine.Keeps.remaining_le (h : machine.Keeps machine') :
    machine'.remaining ≤ machine.remaining :=
  remaining_le_of_rel h.code

/-- Every instruction moves ahead. -/
theorem remaining_lt_of_runStep (hcall : ∀ name, Keeping (call name))
    (h : machine.code = some cursor) (hstep : runStep call machine = .ok () machine') :
    machine'.remaining < machine.remaining := by
  -- The head takes at least its opcode, and the word behind it never moves back.
  cases hread : Instruction.readHead cursor with
  | error e cursor' =>
    rw [runStep_of_unreadable h hread] at hstep
    cases hstep
  | ok head cursor' =>
    rw [runStep_of_read h hread] at hstep
    have hle := ((carryOut_keeps hcall cursor.position head).ok hstep).remaining_le
    have hpast := (Instruction.readHead_eq_ok.1 hread).2
    have hposition := hpast.position
    have hsize := hpast.size
    have hle' := cursor'.position_le
    have hpos := List.length_pos_iff.2 head.encode_ne_nil
    have hrest : ({ machine with code := some cursor' } : Machine).remaining = cursor'.remaining :=
      rfl
    rw [hrest] at hle
    rw [Machine.remaining_of_code h]
    unfold Cursor.remaining at hle ⊢
    omega

private theorem runLoop_of_end (h : machine.code = some cursor) (hend : cursor.hasNext = false)
    (fuel : Nat) : runLoop call fuel machine = .ok () machine := by
  cases fuel with
  | zero =>
    rw [runLoop, bind_eq_of_ok (hasCode_of_code h), hend]
    rfl
  | succ fuel =>
    rw [runLoop, bind_eq_of_ok (hasCode_of_code h), hend]
    rfl

private theorem runLoop_of_more (h : machine.code = some cursor) (hmore : cursor.hasNext = true)
    (fuel : Nat) :
    runLoop call (fuel + 1) machine = (runStep call >>= fun _ => runLoop call fuel) machine := by
  rw [runLoop, bind_eq_of_ok (hasCode_of_code h), hmore]
  rfl

/-- A step leaves some code running. -/
theorem exists_code_of_keeps (h : machine.code = some cursor) (hkeeps : machine.Keeps machine') :
    ∃ cursor', machine'.code = some cursor' := by
  have hcode := hkeeps.code
  rw [h] at hcode
  generalize machine'.code = code at hcode ⊢
  cases hcode
  exact ⟨_, rfl⟩

/-- As many steps as there are bytes left are enough, so more of them make no difference. -/
theorem runLoop_eq_of_le (hcall : ∀ name, Keeping (call name)) (h : machine.code = some cursor)
    {fuel fuel' : Nat} (hfuel : machine.remaining ≤ fuel) (hfuel' : machine.remaining ≤ fuel') :
    runLoop call fuel machine = runLoop call fuel' machine := by
  induction fuel generalizing machine cursor fuel' with
  | zero =>
    have hend : cursor.hasNext = false := by
      rw [Machine.remaining_of_code h] at hfuel
      rw [← Bool.not_eq_true, Cursor.hasNext_iff]
      omega
    rw [runLoop_of_end h hend, runLoop_of_end h hend]
  | succ fuel ih =>
    cases hmore : cursor.hasNext with
    | false => rw [runLoop_of_end h hmore, runLoop_of_end h hmore]
    | true =>
      have hpos := Machine.remaining_pos h hmore
      obtain ⟨fuel', rfl⟩ := Nat.exists_eq_add_of_lt (Nat.lt_of_lt_of_le hpos hfuel')
      rw [Nat.zero_add] at hfuel' ⊢
      rw [runLoop_of_more h hmore, runLoop_of_more h hmore]
      cases hstep : runStep call machine with
      | error stop machine' => rw [bind_eq_of_error hstep, bind_eq_of_error hstep]
      | ok u machine' =>
        rw [bind_eq_of_ok hstep, bind_eq_of_ok hstep]
        have hlt := remaining_lt_of_runStep hcall h hstep
        obtain ⟨cursor', hcode⟩ := exists_code_of_keeps h ((runStep_keeps hcall).ok hstep)
        exact ih hcode (by omega) (by omega)

theorem runRest_of_end (h : machine.code = some cursor) (hend : cursor.hasNext = false) :
    runRest call machine = .ok () machine :=
  runLoop_of_end h hend _

/-- The rest of a run is one instruction and then the rest. -/
theorem runRest_of_more (hcall : ∀ name, Keeping (call name)) (h : machine.code = some cursor)
    (hmore : cursor.hasNext = true) :
    runRest call machine = (runStep call >>= fun _ => runRest call) machine := by
  have hpos := Machine.remaining_pos h hmore
  rw [runRest, ← Nat.sub_add_cancel hpos, runLoop_of_more h hmore]
  cases hstep : runStep call machine with
  | error stop machine' => rw [bind_eq_of_error hstep, bind_eq_of_error hstep]
  | ok u machine' =>
    rw [bind_eq_of_ok hstep, bind_eq_of_ok hstep]
    have hlt := remaining_lt_of_runStep hcall h hstep
    obtain ⟨cursor', hcode⟩ := exists_code_of_keeps h ((runStep_keeps hcall).ok hstep)
    exact runLoop_eq_of_le hcall hcode (by omega) (Nat.le_refl _)

theorem runRest_of_step (hcall : ∀ name, Keeping (call name)) (h : machine.code = some cursor)
    (hmore : cursor.hasNext = true) (hstep : runStep call machine = .ok () machine') :
    runRest call machine = runRest call machine' := by
  rw [runRest_of_more hcall h hmore, bind_eq_of_ok hstep]

theorem runRest_of_stop {stop : Stop} (hcall : ∀ name, Keeping (call name))
    (h : machine.code = some cursor) (hmore : cursor.hasNext = true)
    (hstep : runStep call machine = .error stop machine') :
    runRest call machine = .error stop machine' := by
  rw [runRest_of_more hcall h hmore, bind_eq_of_error hstep]

/-- A run of code is its loop without a limit. -/
theorem runCode_eq_runRest (code : Code) (machine : Machine) :
    Exec.runCode call code machine =
      match runRest call (machine.enter code) with
      | .ok () after => .ok () (after.close (.finished after.stack.peak) machine.code)
      | .error (.failed e) after => .error (.failed e) (after.close (.stopped e) machine.code)
      | .error .outOfFuel after => .error .outOfFuel { after with code := machine.code } :=
  runCode_eq code machine

end Rest

/-! ## Words -/

section Words

variable {machine machine' : Machine} {cursor cursor' : Cursor UInt8} {depth : Nat} {name : String}
  {b : Builtin} {target : UInt16}

theorem invoke_of_unknown (h : machine.dictionary.find? name = none) :
    invoke (depth + 1) name machine = .error (.failed (.runtime (.unknownWord name))) machine := by
  simp only [invoke, callWord, h]

/-- The outcome of a word, with the word that was running before. -/
def restoreWord (word : Option String) :
    EStateM.Result Stop Machine Unit → EStateM.Result Stop Machine Unit
  | .ok () after => .ok () { after with word }
  | .error stop after => .error stop { after with word }

theorem endState_restoreWord (word : Option String) (result : EStateM.Result Stop Machine Unit) :
    endState (restoreWord word result) = { endState result with word } := by
  cases result <;> rfl

theorem invoke_of_builtin (h : machine.dictionary.find? name = some b.word) :
    invoke (depth + 1) name machine =
      restoreWord machine.word (b.run { machine with word := some name }) := by
  simp only [invoke, callWord, h, Builtin.word]
  rfl

/-- Calls from outside may call at least one word. -/
theorem exists_deepestCall : ∃ depth, deepestCall = depth + 1 := ⟨_, rfl⟩

/-- A jump to where a cursor ahead stands leads to that cursor. -/
theorem jumpTo_of_ahead (h : machine.code = some cursor) (hahead : cursor.Ahead cursor') :
    jumpTo cursor'.position machine = .ok () { machine with
      code := some cursor', journal := .jumped cursor'.position :: machine.journal } := by
  have hsize := hahead.size ▸ cursor'.position_le
  obtain ⟨reached, hadvance, hitems, hposition⟩ := Cursor.advanceTo_of_le hahead.2.1 hsize
  obtain rfl : reached = cursor' := Cursor.ext (hitems.trans hahead.1.symm) hposition
  have hread := @readCode_of_ok { machine with
    journal := .jumped reached.position :: machine.journal } cursor reached Unit _ () h hadvance
  exact hread

theorem readTarget_of_past (h : machine.code = some cursor)
    (hpast : cursor.Past (encodeTarget target) cursor') :
    Exec.readTarget machine = .ok target.toNat { machine with code := some cursor' } := by
  refine (bind_eq_of_ok (readCode_of_ok h (Instruction.readTarget_eq_ok.2 hpast))).trans ?_
  rfl

private theorem run_branch_of_past (h : machine.code = some cursor)
    (hpast : cursor.Past (encodeTarget target) cursor') :
    Builtin.branch.run machine =
      (popBool >>= fun flag => if !flag then jumpTo target.toNat else pure ())
        { machine with code := some cursor' } :=
  bind_eq_of_ok (readTarget_of_past h hpast)

private theorem run_jump_of_past (h : machine.code = some cursor)
    (hpast : cursor.Past (encodeTarget target) cursor') :
    Builtin.jump.run machine = jumpTo target.toNat { machine with code := some cursor' } :=
  bind_eq_of_ok (readTarget_of_past h hpast)

end Words

/-! ## Instructions -/

namespace Machine

/-- The machine once it has read what stands between two cursors and found a literal. -/
def pushing (machine : Machine) (value : Value) (cursor cursor' : Cursor UInt8) : Machine :=
  { machine with
    code := some cursor'
    stack := machine.stack.push value
    journal := .pushed cursor.position value :: machine.journal }

/-- The machine once it has read what stands between two cursors and found a word. -/
def calling (machine : Machine) (name : String) (cursor cursor' : Cursor UInt8) : Machine :=
  { machine with
    code := some cursor', journal := .called cursor.position name :: machine.journal }

/-- The machine while it runs that word. -/
def inWord (machine : Machine) (name : String) (cursor cursor' : Cursor UInt8) : Machine :=
  { machine.calling name cursor cursor' with word := some name }

end Machine

section Instructions

variable {call : String → Exec Unit} {machine machine' : Machine} {cursor cursor' : Cursor UInt8}
  {depth : Nat} {name : String} {b : Builtin} {target : UInt16}

theorem runStep_push {literal : Literal} (h : machine.code = some cursor)
    (hencodable : literal.Encodable)
    (hpast : cursor.Past (Instruction.push literal).encode cursor') :
    runStep call machine = .ok () (machine.pushing literal.value cursor cursor') := by
  have hread : Instruction.readHead cursor = .ok (.push literal) cursor' :=
    Instruction.readHead_eq_ok.2 ⟨hencodable, hpast⟩
  rw [runStep_of_read h hread]
  rfl

private theorem runStep_call (h : machine.code = some cursor) (hname : IsName name)
    (hpast : cursor.Past (encodeCall name) cursor') :
    runStep call machine = call name (machine.calling name cursor cursor') := by
  have hread : Instruction.readHead cursor = .ok (.exec name) cursor' :=
    Instruction.readHead_eq_ok.2 ⟨hname, hpast⟩
  rw [runStep_of_read h hread]
  rfl

theorem runStep_unknown (h : machine.code = some cursor) (hname : IsName name)
    (hpast : cursor.Past (encodeCall name) cursor') (hfind : machine.dictionary.find? name = none) :
    runStep (invoke (depth + 1)) machine =
      .error (.failed (.runtime (.unknownWord name))) (machine.calling name cursor cursor') := by
  rw [runStep_call h hname hpast]
  exact invoke_of_unknown hfind

theorem runStep_builtin (h : machine.code = some cursor) (hname : IsName name)
    (hpast : cursor.Past (encodeCall name) cursor')
    (hfind : machine.dictionary.find? name = some b.word) :
    runStep (invoke (depth + 1)) machine =
      restoreWord machine.word (b.run (machine.inWord name cursor cursor')) := by
  rw [runStep_call h hname hpast]
  exact invoke_of_builtin hfind

theorem runStep_branch (h : machine.code = some cursor)
    (hpast : cursor.Past (Instruction.branch target).encode cursor')
    (hfind : machine.dictionary.find? branchName = some Builtin.branch.word) :
    runStep (invoke (depth + 1)) machine = restoreWord machine.word
      ((popBool >>= fun flag => if !flag then jumpTo target.toNat else pure ())
        (machine.inWord branchName cursor cursor')) := by
  obtain ⟨middle, hcall, htarget⟩ := Cursor.past_append.1 hpast
  rw [runStep_builtin h Instruction.isName_branchName hcall hfind, run_branch_of_past rfl htarget]
  rfl

theorem runStep_jump (h : machine.code = some cursor)
    (hpast : cursor.Past (Instruction.jump target).encode cursor')
    (hfind : machine.dictionary.find? jumpName = some Builtin.jump.word) :
    runStep (invoke (depth + 1)) machine = restoreWord machine.word
      (jumpTo target.toNat (machine.inWord jumpName cursor cursor')) := by
  obtain ⟨middle, hcall, htarget⟩ := Cursor.past_append.1 hpast
  rw [runStep_builtin h Instruction.isName_jumpName hcall hfind, run_jump_of_past rfl htarget]
  rfl

end Instructions

end Tabletop
