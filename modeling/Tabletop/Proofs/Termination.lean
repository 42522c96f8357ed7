import Mathlib.Logic.Relation
import Tabletop.Proofs.Loop

/-!
# Every run comes to its end

The loop has no counter of its own, and `Loops` describes it without one: it may go on for ever, and
then it relates the machine to no result. The words move the cursor by offsets that stand in the
code, whatever the bytes are, but only ahead and never beyond the end (`Iterates.movesOn`). So the
loop is left after at most as many instructions as there are bytes (`exists_loops`), and a loop that
is limited to that many has the same result (`Loops.runLoop_eq`).
-/

namespace Tabletop

open Exec

/-! ## The loop without a limit -/

/-- The machine has more code to read, and the instruction it reads next leaves the other one. -/
def Iterates (call : String → Exec Unit) (before after : Machine) : Prop :=
  hasCode before = .ok true before ∧ runStep call before = .ok () after

/-- The loop that begins with the machine is left after this many instructions, the one that fails
included, and with this result. -/
inductive Loops (call : String → Exec Unit) :
    Machine → Nat → EStateM.Result Stop Machine Unit → Prop
  | ended {machine : Machine} : hasCode machine = .ok false machine →
    Loops call machine 0 (.ok () machine)
  | unstarted {machine after : Machine} {stop : Stop} : hasCode machine = .error stop after →
    Loops call machine 0 (.error stop after)
  | stopped {machine after : Machine} {stop : Stop} : hasCode machine = .ok true machine →
    runStep call machine = .error stop after → Loops call machine 1 (.error stop after)
  | next {machine machine' : Machine} {count : Nat} {result : EStateM.Result Stop Machine Unit} :
    Iterates call machine machine' → Loops call machine' count result →
    Loops call machine (count + 1) result

section Loops

variable {call : String → Exec Unit} {machine : Machine} {count count' : Nat}
  {result result' : EStateM.Result Stop Machine Unit}

/-- The loop has at most one result, and one number of instructions. -/
theorem Loops.unique (h : Loops call machine count result)
    (h' : Loops call machine count' result') : count' = count ∧ result' = result := by
  -- How the loop begins is decided by whether there is code left and by what its instruction does.
  induction h generalizing count' result' with
  | ended hend => cases h' <;> simp_all [Iterates]
  | unstarted hfail => cases h' <;> simp_all [Iterates]
  | stopped hmore hstop => cases h' <;> simp_all [Iterates]
  | next hstep _ ih =>
    obtain ⟨hmore, hstep⟩ := hstep
    cases h' with
    | ended hend => simp_all
    | unstarted hfail => simp_all
    | stopped _ hstop => simp_all
    | next hstep' hrest =>
      obtain ⟨_, hstep'⟩ := hstep'
      rw [hstep] at hstep'
      cases hstep'
      obtain ⟨rfl, rfl⟩ := ih hrest
      exact ⟨rfl, rfl⟩

/-- A loop with a limit that is not too low has the result of the loop without one. -/
theorem Loops.runLoop_eq (h : Loops call machine count result) {fuel : Nat} (hfuel : count ≤ fuel) :
    runLoop call fuel machine = result := by
  induction h generalizing fuel with
  | ended hend =>
    cases fuel with
    | zero => rw [runLoop, bind_eq_of_ok hend]; rfl
    | succ fuel => rw [runLoop, bind_eq_of_ok hend]; rfl
  | unstarted hfail =>
    cases fuel with
    | zero => rw [runLoop, bind_eq_of_error hfail]
    | succ fuel => rw [runLoop, bind_eq_of_error hfail]
  | stopped hmore hstop =>
    obtain ⟨fuel, rfl⟩ := Nat.exists_eq_add_of_le' hfuel
    rw [runLoop, bind_eq_of_ok hmore]
    exact bind_eq_of_error hstop
  | next hstep _ ih =>
    obtain ⟨fuel, rfl⟩ := Nat.exists_eq_add_of_le' hfuel
    rw [← Nat.add_assoc, runLoop, bind_eq_of_ok hstep.1]
    exact (bind_eq_of_ok hstep.2).trans (ih (Nat.le_add_left _ _))

end Loops

/-! ## Moving on -/

/-- Both machines run the code, and the second has read more of it, though not beyond its end. -/
def MovesOn (code : Code) (before after : Machine) : Prop :=
  ∃ cursor cursor', before.code = some cursor ∧ after.code = some cursor' ∧
    cursor.items = code ∧ cursor'.items = code ∧
    cursor.position < cursor'.position ∧ cursor'.position ≤ code.length

section Moving

variable {call : String → Exec Unit} {machine before after : Machine} {cursor : Cursor UInt8}

private theorem Iterates.movesOn (hcall : ∀ name, Keeping (call name))
    (h : Iterates call before after)
    (hcode : before.code = some cursor) : MovesOn cursor.items before after := by
  have hkeeps := ((runStep_keeps hcall).ok h.2).code
  have hlt := remaining_lt_of_runStep hcall hcode h.2
  rw [hcode] at hkeeps
  cases hcode' : after.code with
  | none =>
    rw [hcode'] at hkeeps
    cases hkeeps
  | some cursor' =>
    rw [hcode'] at hkeeps
    cases hkeeps with
    | some hahead =>
      rw [Machine.remaining_of_code hcode, Machine.remaining_of_code hcode'] at hlt
      have hsize := hahead.size
      have hle := cursor.position_le
      have hle' := cursor'.position_le
      unfold Cursor.remaining at hlt
      exact ⟨cursor, cursor', hcode, hcode', rfl, hahead.1, by omega, hahead.1 ▸ hahead.2.2⟩

/-- Instructions that follow one another all read the code that the first one reads. -/
theorem exists_code_of_iterates (hcall : ∀ name, Keeping (call name))
    (h : Relation.ReflTransGen (Iterates call) machine before)
    (hcode : machine.code = some cursor) :
    ∃ cursor', before.code = some cursor' ∧ cursor'.items = cursor.items := by
  induction h with
  | refl => exact ⟨cursor, hcode, rfl⟩
  | tail _ hstep ih =>
    obtain ⟨middle, hmiddle, hitems⟩ := ih
    obtain ⟨_, cursor', _, hcode', _, hitems', _⟩ := hstep.movesOn hcall hmiddle
    exact ⟨cursor', hcode', hitems'.trans hitems⟩

/-- The loop is left after at most as many instructions as there are bytes left to read. -/
theorem exists_loops (hcall : ∀ name, Keeping (call name)) (hcode : machine.code = some cursor) :
    ∃ count result, Loops call machine count result ∧ count ≤ machine.remaining := by
  -- Jumps skip bytes, so the induction is on the number of those that are left.
  induction hleft : machine.remaining using Nat.strongRecOn generalizing machine cursor with
  | _ left ih =>
    cases hmore : cursor.hasNext with
    | false =>
      have hend := hmore ▸ hasCode_of_code hcode
      exact ⟨0, _, .ended hend, Nat.zero_le _⟩
    | true =>
      have hcontinue := hmore ▸ hasCode_of_code hcode
      cases hstep : runStep call machine with
      | error stop after =>
        have hpos := Machine.remaining_pos hcode hmore
        exact ⟨1, _, .stopped hcontinue hstep, by omega⟩
      | ok _ after =>
        have hlt := remaining_lt_of_runStep hcall hcode hstep
        obtain ⟨cursor', hcode'⟩ := exists_code_of_keeps hcode ((runStep_keeps hcall).ok hstep)
        obtain ⟨count, result, hloops, hcount⟩ := ih _ (hleft ▸ hlt) hcode' rfl
        exact ⟨count + 1, result, .next ⟨hcontinue, hstep⟩ hloops, by omega⟩

end Moving

/-! ## Built-in words never run out of steps -/

/-- The machine stops because of an error. -/
def Stop.IsError : Stop → Prop
  | .failed _ => True
  | .outOfFuel => False

/-- The known words are the same. -/
def Machine.SameWords (before after : Machine) : Prop := after.dictionary = before.dictionary

instance : IsPreorder Machine Machine.SameWords where
  refl _ := rfl
  trans _ _ _ h₁ h₂ := Eq.trans h₂ h₁

/-- A step that leaves the known words alone and stops only because of an error. -/
abbrev Plain {α : Type} (x : Exec α) : Prop := Ensures x Machine.SameWords Stop.IsError

theorem Ensures.plain {α : Type} {x : Exec α} (h : Steady x) : Plain x := by
  refine h.mono (fun _ _ hstays => hstays.dictionary) ?_
  intro stop hstop
  cases stop with
  | failed e => exact trivial
  | outOfFuel => exact hstop

private theorem readCode_plain {α : Type} (read : Cursor.Read UInt8 α) : Plain (readCode read) := by
  intro machine
  unfold readCode
  cases machine.code with
  | none => exact ⟨rfl, trivial⟩
  | some cursor =>
    dsimp only
    cases read cursor with
    | ok a cursor' => exact rfl
    | error e cursor' => exact ⟨rfl, trivial⟩

private theorem jumpTo_plain (target : Nat) : Plain (jumpTo target) :=
  .bind (record_stays _).plain fun _ => readCode_plain _

private theorem Builtin.run_plain (b : Builtin) : Plain b.run := by
  have htarget : Plain Exec.readTarget := .bind (readCode_plain _) fun _ => .pure _
  by_cases h : b.Steers
  · obtain rfl | rfl := h
    · refine .bind htarget fun target => .bind popBool_stays.plain fun flag => ?_
      exact .ite (jumpTo_plain target) (.pure _)
    · exact .bind htarget fun target => jumpTo_plain target
  · exact (Builtin.run_stays h).plain

section Words

variable {groups : List Builtin.Group} {machine after : Machine} {depth : Nat} {name : String}

/-- What a machine that knows some built-in words comes to: it knows the same words, or it stops
because of an error. -/
def KnowsOrFails (groups : List Builtin.Group) (result : EStateM.Result Stop Machine Unit) : Prop :=
  match result with
  | .ok _ after => after.dictionary = .ofGroups groups
  | .error stop _ => stop.IsError

private theorem invoke_knows (hwords : machine.dictionary = .ofGroups groups) :
    KnowsOrFails groups (invoke (depth + 1) name machine) := by
  cases hfind : machine.dictionary.find? name with
  | none =>
    rw [invoke_of_unknown hfind]
    exact trivial
  | some word =>
    obtain ⟨b, rfl, -⟩ := Dictionary.eq_word_of_find?_ofGroups (hwords ▸ hfind)
    rw [invoke_of_builtin hfind]
    cases hrun : b.run { machine with word := some name } with
    | ok _ after => exact (b.run_plain.ok hrun).trans hwords
    | error stop after => exact (b.run_plain.error hrun).2

theorem runStep_knows {cursor : Cursor UInt8} (hcode : machine.code = some cursor)
    (hwords : machine.dictionary = .ofGroups groups) :
    KnowsOrFails groups (runStep (invoke (depth + 1)) machine) := by
  cases hread : Instruction.readHead cursor with
  | error e cursor' =>
    rw [runStep_of_unreadable hcode hread]
    exact trivial
  | ok head cursor' =>
    rw [runStep_of_read hcode hread]
    cases head with
    | push literal => exact hwords
    | exec name =>
      exact @invoke_knows groups (machine.calling name cursor cursor') depth name hwords

theorem exists_code_of_hasCode {more : Bool} (h : hasCode machine = .ok more after) :
    ∃ cursor, machine.code = some cursor := by
  cases hcode : machine.code with
  | none =>
    simp only [hasCode, readCode, hcode] at h
    cases h
  | some cursor => exact ⟨cursor, rfl⟩

theorem Loops.knows {count : Nat} {result : EStateM.Result Stop Machine Unit}
    (h : Loops (invoke (depth + 1)) machine count result)
    (hwords : machine.dictionary = .ofGroups groups) : KnowsOrFails groups result := by
  induction h with
  | ended => exact hwords
  | unstarted hfail => exact ((readCode_plain _).error hfail).2
  | stopped hmore hstop =>
    obtain ⟨cursor, hcode⟩ := exists_code_of_hasCode hmore
    have hknows := @runStep_knows groups _ depth cursor hcode hwords
    rwa [hstop] at hknows
  | next hstep _ ih =>
    obtain ⟨cursor, hcode⟩ := exists_code_of_hasCode hstep.1
    have hknows := @runStep_knows groups _ depth cursor hcode hwords
    rw [hstep.2] at hknows
    exact ih hknows

end Words

/-! ## Runs -/

/-- The outcome of a run whose loop has this result: what was running before goes on. -/
def Machine.leave (machine : Machine) :
    EStateM.Result Stop Machine Unit → EStateM.Result Stop Machine Unit
  | .ok () after => .ok () (after.close (.finished after.stack.peak) machine.code)
  | .error (.failed e) after => .error (.failed e) (after.close (.stopped e) machine.code)
  | .error .outOfFuel after => .error .outOfFuel { after with code := machine.code }

/-- A run of code is a loop that is left at some time. -/
theorem exists_loops_of_runCode (machine : Machine) (code : Code) (depth : Nat) :
    ∃ count loop, Loops (invoke depth) (machine.enter code) count loop ∧
      Exec.runCode (invoke depth) code machine = machine.leave loop := by
  have hcode : (machine.enter code).code = some (.start code) := rfl
  obtain ⟨count, loop, hloops, hcount⟩ := exists_loops (invoke_keeps depth) hcode
  rw [Machine.remaining_of_code hcode] at hcount
  refine ⟨count, loop, hloops, ?_⟩
  rw [← hloops.runLoop_eq hcount]
  rfl

/-- A run by built-in words stops only because of an error. -/
theorem isError_of_leave {machine after : Machine} {groups : List Builtin.Group}
    {loop : EStateM.Result Stop Machine Unit} {stop : Stop}
    (hknows : KnowsOrFails groups loop) (h : machine.leave loop = .error stop after) :
    stop.IsError := by
  cases loop with
  | ok _ last => cases h
  | error stop' last =>
    cases stop' with
    | failed e =>
      cases h
      exact trivial
    | outOfFuel => exact hknows.elim

theorem runCode_isError {groups : List Builtin.Group} {depth : Nat} {machine after : Machine}
    {code : Code} {stop : Stop} (hwords : machine.dictionary = .ofGroups groups)
    (h : Exec.runCode (invoke (depth + 1)) code machine = .error stop after) : stop.IsError := by
  obtain ⟨count, loop, hloops, hleave⟩ := exists_loops_of_runCode machine code (depth + 1)
  exact isError_of_leave (hloops.knows hwords) (hleave.symm.trans h)

/-- Whatever the bytes of the code, an instruction after which the loop goes on moves ahead in it,
and not beyond its end. So the loop is left after at most as many instructions as there are bytes,
with a single result, and that is what the loop with this many steps answers, or with more; it
stops only because of an error. -/
theorem runCode_terminates (code : Code) (machine : Machine) (depth : Nat)
    (hwords : machine.dictionary = .ofGroups Builtin.Group.all) :
    let call := invoke (depth + 1)
    let entered := machine.enter code
    (∀ before after, Relation.ReflTransGen (Iterates call) entered before →
      Iterates call before after → MovesOn code before after) ∧
    ∃ count result, Loops call entered count result ∧ count ≤ code.length ∧
      (∀ count' result', Loops call entered count' result' → count' = count ∧ result' = result) ∧
      (∀ fuel, count ≤ fuel → runLoop call fuel entered = result) ∧
      (∀ stop after, result = .error stop after → stop.IsError) ∧
      Exec.runCode call code machine = machine.leave result := by
  intro call entered
  have hcall : ∀ name, Keeping (call name) := invoke_keeps (depth + 1)
  have hcode : entered.code = some (.start code) := rfl
  refine ⟨?_, ?_⟩
  · intro before after hreach hstep
    obtain ⟨cursor, hcursor, hitems⟩ := exists_code_of_iterates hcall hreach hcode
    have hmoves := hstep.movesOn hcall hcursor
    rwa [hitems] at hmoves
  · obtain ⟨count, result, hloops, hcount⟩ := exists_loops hcall hcode
    have hlength : entered.remaining = code.length := Machine.remaining_of_code hcode
    rw [hlength] at hcount
    refine ⟨count, result, hloops, hcount, fun _ _ => hloops.unique,
      fun _ hfuel => hloops.runLoop_eq hfuel, ?_, ?_⟩
    · intro stop after hstop
      have hknows := hloops.knows hwords
      rwa [hstop] at hknows
    · rw [← hloops.runLoop_eq hcount]
      rfl

/-- A jump over a byte that is no opcode, to a jump whose target is cut off. -/
theorem runCode_terminates_truncated :
    let code : Code := [1, 74, 77, 80, 0, 0, 8, 7, 1, 74, 77, 80, 0, 0]
    let machine := Machine.start (.ofGroups Builtin.Group.all) .standard (.empty [])
    ∃ count result, Loops (invoke 1) (machine.enter code) count result ∧ count ≤ 14 ∧
      Exec.runCode (invoke 1) code machine = machine.leave result := by
  intro code machine
  obtain ⟨-, count, result, hloops, hcount, -, -, -, hrun⟩ :=
    runCode_terminates code machine 0 rfl
  exact ⟨count, result, hloops, hcount, hrun⟩

end Tabletop
