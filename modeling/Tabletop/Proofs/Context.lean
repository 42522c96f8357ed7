import Tabletop.Machine.Run
import Tabletop.Proofs.Decoding
import Tabletop.Proofs.Steps

/-!
# The context of a run

The running code and the running word are the context in which a word acts. A built-in word other
than the two that steer the run leaves both alone (`Builtin.run_stays`). Everything else may move
ahead in the running code but neither replaces it nor changes the running word (`Machine.Keeps`),
and what starts a run of its own puts back what was running before, down to the position.
-/

namespace Tabletop

open Exec

/-! ## What stays -/

/-- The context and the known words are the same. -/
structure Machine.Stays (before after : Machine) : Prop where
  code : after.code = before.code
  word : after.word = before.word
  dictionary : after.dictionary = before.dictionary

instance : IsPreorder Machine Machine.Stays where
  refl _ := ⟨rfl, rfl, rfl⟩
  trans _ _ _ h₁ h₂ := ⟨h₂.code.trans h₁.code, h₂.word.trans h₁.word,
    h₂.dictionary.trans h₁.dictionary⟩

/-- The running word is the same, and the running code is read further at most. -/
structure Machine.Keeps (before after : Machine) : Prop where
  code : Option.Rel Cursor.Ahead before.code after.code
  word : after.word = before.word

private theorem rel_ahead_refl (code : Option (Cursor UInt8)) :
    Option.Rel Cursor.Ahead code code := by
  cases code with
  | none => exact .none
  | some cursor => exact .some (refl_of Cursor.Ahead cursor)

private theorem rel_ahead_trans {a b c : Option (Cursor UInt8)} (h₁ : Option.Rel Cursor.Ahead a b)
    (h₂ : Option.Rel Cursor.Ahead b c) : Option.Rel Cursor.Ahead a c := by
  cases h₁ with
  | none => exact h₂
  | some h₁ =>
    cases h₂ with
    | some h₂ => exact .some (trans_of Cursor.Ahead h₁ h₂)

instance : IsPreorder Machine Machine.Keeps where
  refl machine := ⟨rel_ahead_refl machine.code, rfl⟩
  trans _ _ _ h₁ h₂ := ⟨rel_ahead_trans h₁.code h₂.code, h₂.word.trans h₁.word⟩

private theorem Machine.Stays.keeps {before after : Machine} (h : before.Stays after) :
    before.Keeps after :=
  ⟨h.code ▸ rel_ahead_refl before.code, h.word⟩

/-- Why a program stops by what it does, as opposed to how it is written in code. -/
def Stop.OfProgram : Stop → Prop
  | .failed (.runtime (.unknownWord _)) => True
  | .failed (.runtime .stackUnderflow) => True
  | .failed (.runtime (.typeMismatch _ _)) => True
  | .failed (.runtime (.wordFailed _ _ _)) => True
  | .failed (.runtime (.io _)) => True
  | _ => False

/-- A step that leaves the context alone and fails only by what it does. -/
abbrev Steady {α : Type} (x : Exec α) : Prop := Ensures x Machine.Stays Stop.OfProgram

/-- A step that keeps the context, whether it fails or not. -/
abbrev Keeping {α : Type} (x : Exec α) : Prop := Ensures x Machine.Keeps fun _ => True

private theorem Ensures.keeping {α : Type} {x : Exec α} (h : Steady x) : Keeping x :=
  h.mono (fun _ _ hstays => hstays.keeps) fun _ _ => trivial

/-! ## The steps of words -/

private theorem push_stays (value : Value) : Steady (push value) := fun _ => ⟨rfl, rfl, rfl⟩

theorem record_stays (event : Event) : Steady (record event) := fun _ => ⟨rfl, rfl, rfl⟩

private theorem order_stays (o : Order) : Steady (order o) := fun _ => ⟨rfl, rfl, rfl⟩

private theorem pop_stays : Steady pop := by
  intro machine
  unfold pop
  cases machine.stack.pop? with
  | none => exact ⟨refl_of Machine.Stays machine, trivial⟩
  | some top => exact ⟨rfl, rfl, rfl⟩

private theorem position?_stays : Steady position? := .bind .get fun _ => .pure _

private theorem fail_stays {α : Type} (fault : Fault) : Steady (fail fault : Exec α) :=
  .bind .get fun _ => .bind position?_stays fun _ => .throw trivial

private theorem print_stays (text : String) : Steady (Exec.print text) := by
  intro machine
  unfold Exec.print
  dsimp only
  cases Limit.blocked? (Text.utf8 text) machine.output.limits with
  | none => exact ⟨rfl, rfl, rfl⟩
  | some message => exact ⟨⟨rfl, rfl, rfl⟩, trivial⟩

/-- The steps of built-in words leave the context alone. -/
theorem steady_steps : HoldsOfSteps fun _ x => Steady x where
  pure := .pure
  bind := .bind
  byState _ h := .bind .get h
  byStack _ h := .bind .get h
  pop := pop_stays
  push := push_stays
  mismatch _ _ := .throw trivial
  fail := fail_stays
  print := print_stays
  unreported := record_stays _
  order := order_stays

/-- A built-in word that does not steer the run leaves the context alone. -/
theorem Builtin.run_stays {b : Builtin} (h : ¬ b.Steers) : Steady b.run :=
  Builtin.run_of_steps steady_steps h

theorem popBool_stays : Steady popBool := steady_steps.popBool

/-! ## Reading the running code -/

private theorem readCode_keeps {α : Type} {read : Cursor.Read UInt8 α} (h : Cursor.Forward read) :
    Keeping (readCode read) := by
  intro machine
  unfold readCode
  cases hcode : machine.code with
  | none => exact ⟨refl_of Machine.Keeps machine, trivial⟩
  | some cursor =>
    dsimp only
    cases hread : read cursor with
    | ok a cursor' => exact ⟨hcode ▸ .some (h.ok hread), rfl⟩
    | error e cursor' => exact ⟨⟨hcode ▸ .some (h.error hread).1, rfl⟩, trivial⟩

private theorem hasCode_keeps : Keeping hasCode :=
  readCode_keeps fun cursor => refl_of Cursor.Ahead cursor

private theorem readTarget_keeps : Keeping Exec.readTarget :=
  .bind (readCode_keeps Instruction.readTarget_forward) fun _ => .pure _

private theorem jumpTo_keeps (target : Nat) : Keeping (jumpTo target) :=
  .bind (record_stays _).keeping fun _ => readCode_keeps (Cursor.advanceTo_forward target)

private theorem Builtin.run_keeps (b : Builtin) : Keeping b.run := by
  by_cases h : b.Steers
  · obtain rfl | rfl := h
    · refine .bind readTarget_keeps fun target => .bind popBool_stays.keeping fun flag => ?_
      exact .ite (jumpTo_keeps target) (.pure _)
    · exact .bind readTarget_keeps fun target => jumpTo_keeps target
  · exact (Builtin.run_stays h).keeping

/-! ## Runs -/

section Runs

variable {call : String → Exec Unit}

/-- What an instruction at the given offset does after its head has been read. -/
def carryOut (call : String → Exec Unit) (offset : Nat) : Instruction.Head → Exec Unit
  | .push literal => do
    record (.pushed offset literal.value)
    push literal.value
  | .exec name => do
    record (.called offset name)
    call name

theorem runStep_eq : runStep call = (do
    let position ← position?
    let head ← readCode Instruction.readHead
    carryOut call (position.getD 0) head) := rfl

theorem carryOut_keeps (hcall : ∀ name, Keeping (call name)) (offset : Nat)
    (head : Instruction.Head) : Keeping (carryOut call offset head) := by
  cases head with
  | push literal => exact .bind (record_stays _).keeping fun _ => (push_stays _).keeping
  | exec name => exact .bind (record_stays _).keeping fun _ => hcall name

theorem runStep_keeps (hcall : ∀ name, Keeping (call name)) : Keeping (runStep call) := by
  rw [runStep_eq]
  refine .bind position?_stays.keeping fun position => ?_
  refine .bind (readCode_keeps Instruction.readHead_forward) fun head => ?_
  exact carryOut_keeps hcall _ head

private theorem runLoop_keeps (hcall : ∀ name, Keeping (call name)) (fuel : Nat) :
    Keeping (runLoop call fuel) := by
  induction fuel with
  | zero => exact .bind hasCode_keeps fun more => .ite (.throw trivial) (.pure _)
  | succ fuel ih =>
    refine .bind hasCode_keeps fun more => .ite ?_ (.pure _)
    exact .bind (runStep_keeps hcall) fun _ => ih

/-- The context is the same, down to the position in the running code. -/
def Machine.SameContext (before after : Machine) : Prop :=
  after.code = before.code ∧ after.word = before.word

instance : IsPreorder Machine Machine.SameContext where
  refl _ := ⟨rfl, rfl⟩
  trans _ _ _ h₁ h₂ := ⟨h₂.1.trans h₁.1, h₂.2.trans h₁.2⟩

private theorem Machine.SameContext.keeps {before after : Machine} (h : before.SameContext after) :
    before.Keeps after :=
  ⟨h.1 ▸ rel_ahead_refl before.code, h.2⟩

/-- A computation after which the context is as it was before. -/
abbrev Restoring {α : Type} (x : Exec α) : Prop := Ensures x Machine.SameContext fun _ => True

private theorem Ensures.restoring_keeps {α : Type} {x : Exec α} (h : Restoring x) : Keeping x :=
  h.mono (fun _ _ hsame => hsame.keeps) fun _ _ => trivial

/-- The machine at the start of a run of the code. -/
def Machine.enter (machine : Machine) (code : Code) : Machine :=
  { machine with code := some (.start code), journal := .started code.length :: machine.journal }

/-- A run of code ends as its loop does, but for the context and the journal. -/
theorem runCode_eq (code : Code) (machine : Machine) :
    Exec.runCode call code machine =
      match runLoop call code.length (machine.enter code) with
      | .ok () after => .ok () (after.close (.finished after.stack.peak) machine.code)
      | .error (.failed e) after => .error (.failed e) (after.close (.stopped e) machine.code)
      | .error .outOfFuel after => .error .outOfFuel { after with code := machine.code } := rfl

theorem runCode_restores (hcall : ∀ name, Keeping (call name)) (code : Code) :
    Restoring (Exec.runCode call code) := by
  intro machine
  -- The loop runs in a context of its own, of which only the running word outlives it.
  have hword : (endState (runLoop call code.length (machine.enter code))).word = machine.word :=
    ((runLoop_keeps hcall code.length).atEnd (machine.enter code)).word
  rw [runCode_eq]
  cases hrun : runLoop call code.length (machine.enter code) with
  | ok u after =>
    rw [hrun] at hword
    exact ⟨rfl, hword⟩
  | error stop after =>
    rw [hrun] at hword
    cases stop with
    | failed e => exact ⟨⟨rfl, hword⟩, trivial⟩
    | outOfFuel => exact ⟨⟨rfl, hword⟩, trivial⟩

private theorem ofLogged_restores {α : Type} (logged : Logged α) : Restoring (ofLogged logged) := by
  intro machine
  unfold ofLogged
  cases logged machine.journal with
  | ok a journal => exact ⟨rfl, rfl⟩
  | error e journal => exact ⟨⟨rfl, rfl⟩, trivial⟩

private theorem runSource_restores (hcall : ∀ name, Keeping (call name)) (path source : String) :
    Restoring (Exec.runSource call path source) := by
  refine .bind (ofLogged_restores _) fun code => ?_
  exact .bind (.modify fun _ => ⟨rfl, rfl⟩) fun _ => runCode_restores hcall code

private theorem evaluate_restores (hcall : ∀ name, Keeping (call name)) (source : String) :
    Restoring (Exec.evaluate call source) :=
  .bind (ofLogged_restores _) fun code => runCode_restores hcall code

end Runs

/-! ## Words and calls -/

/-- A word leaves the running word as it was, whatever its action does to it. -/
theorem callWord_keeps {act : Action → Exec Unit} (hact : ∀ action, Keeping (act action))
    (name : String) : Keeping (callWord act name) := by
  intro machine
  unfold callWord
  cases machine.dictionary.find? name with
  | none => exact ⟨refl_of Machine.Keeps machine, trivial⟩
  | some word =>
    dsimp only
    -- Of what the action keeps, only the code matters: the running word is put back here.
    have hcode := ((hact word.action).atEnd { machine with word := some name }).code
    cases hrun : act word.action { machine with word := some name } with
    | ok u after =>
      rw [hrun] at hcode
      exact ⟨hcode, rfl⟩
    | error stop after =>
      rw [hrun] at hcode
      exact ⟨⟨hcode, rfl⟩, trivial⟩

private theorem silently_keeps {x : Exec Unit} (h : Keeping x) : Keeping (Exec.silently x) :=
  .bind h fun _ => .pure _

/-- What is caught has kept the context, and what follows keeps it on. -/
theorem attempt_keeps {x : Exec Unit} {next : Option Error → Exec Unit} (h : Keeping x)
    (hnext : ∀ e, Keeping (next e)) : Keeping (Exec.attempt x next) := by
  refine .of_atEnd fun machine => ?_
  have hx := h.atEnd machine
  unfold Exec.attempt
  cases hrun : x machine with
  | ok u after =>
    rw [hrun] at hx
    exact trans_of Machine.Keeps hx ((hnext none).atEnd after)
  | error stop after =>
    rw [hrun] at hx
    cases stop with
    | outOfFuel => exact hx
    | failed e => exact trans_of Machine.Keeps hx ((hnext (some e)).atEnd after)

mutual

private theorem Call.perform_keeps {call : String → Exec Unit}
    (hcall : ∀ name, Keeping (call name)) :
    ∀ c : Call, Keeping (c.perform call)
  | .runSource path source => silently_keeps (runSource_restores hcall path source).restoring_keeps
  | .runCode code => silently_keeps (runCode_restores hcall code).restoring_keeps
  | .evaluate source => silently_keeps (evaluate_restores hcall source).restoring_keeps
  | .execute name => silently_keeps (hcall name)
  | .push value => silently_keeps (push_stays value).keeping
  | .pushSize _ => silently_keeps (push_stays _).keeping
  | .pop => .bind pop_stays.keeping fun _ => .pure _
  | .popInt => .bind steady_steps.popInt.keeping fun _ => .pure _
  | .popBool => .bind popBool_stays.keeping fun _ => .pure _
  | .popDirection => .bind steady_steps.popDirection.keeping fun _ => .pure _
  | .position => .bind position?_stays.keeping fun _ => .pure _
  | .currentWord => .bind .get fun _ => .pure _
  | .readTarget => .bind readTarget_keeps fun _ => .pure _
  | .jumpTo target => silently_keeps (jumpTo_keeps target)
  | .define _ _ => silently_keeps (.modify fun machine => ⟨rel_ahead_refl machine.code, rfl⟩)
  | .find _ => .bind .get fun _ => .pure _
  | .countWords => .bind .get fun _ => .pure _
  | .print text => silently_keeps (print_stays text).keeping
  | .fail message => (fail_stays (.reported message)).keeping
  | .order o => .bind (order_stays o).keeping fun _ => .pure _
  | .andThen c next =>
    .bind (Call.perform_keeps hcall c) fun reply =>
      silently_keeps (Call.performAll_keeps hcall (next (reply.map Word.toHeading)))
  | .attempt body next =>
    silently_keeps (attempt_keeps (Call.performAll_keeps hcall body) fun e =>
      Call.performAll_keeps hcall (next e))

private theorem Call.performAll_keeps {call : String → Exec Unit}
    (hcall : ∀ name, Keeping (call name)) :
    ∀ body : List Call, Keeping (Call.performAll call body)
  | [] => .pure _
  | c :: rest => .bind (Call.perform_keeps hcall c) fun _ => Call.performAll_keeps hcall rest

end

/-- Words keep the context, however deep their routines call one another. -/
theorem invoke_keeps (depth : Nat) (name : String) : Keeping (invoke depth name) := by
  -- A routine calls words at the depth below, where they keep the context by induction.
  induction depth generalizing name with
  | zero => exact .throw trivial
  | succ depth ih =>
    refine callWord_keeps (fun action => ?_) name
    cases action with
    | builtin b => exact b.run_keeps
    | routine body => exact Call.performAll_keeps ih body

/-! ## Sessions -/

/-- The machine after a series of calls from outside, each made whether or not those before it
failed. -/
def Machine.afterCalls (machine : Machine) (calls : List Call) : Machine :=
  calls.foldl (fun machine call => endState (machine.perform call)) machine

private theorem Machine.afterCalls_keeps (machine : Machine) (calls : List Call) :
    machine.Keeps (machine.afterCalls calls) := by
  induction calls generalizing machine with
  | nil => exact refl_of Machine.Keeps machine
  | cons call calls ih =>
    have hcall := (Call.perform_keeps (invoke_keeps deepestCall) call).atEnd machine
    exact trans_of Machine.Keeps hcall (ih (endState (machine.perform call)))

/-- Whatever starts a run of its own, at any depth of calls and with any outcome, leaves the running
code and the running word as they were; a word leaves the running word as it was and reads the
running code further at most. So a machine is at rest between the calls from outside. -/
theorem context_restored (depth : Nat) :
    (∀ (machine : Machine) code,
      machine.SameContext (endState (Exec.runCode (invoke depth) code machine))) ∧
    (∀ (machine : Machine) path source,
      machine.SameContext (endState (Exec.runSource (invoke depth) path source machine))) ∧
    (∀ (machine : Machine) source,
      machine.SameContext (endState (Exec.evaluate (invoke depth) source machine))) ∧
    (∀ (machine : Machine) name, machine.Keeps (endState (invoke depth name machine))) ∧
    (∀ dictionary table output calls,
      ((Machine.start dictionary table output).afterCalls calls).code = none ∧
      ((Machine.start dictionary table output).afterCalls calls).word = none) := by
  refine ⟨fun machine code => ?_, fun machine path source => ?_, fun machine source => ?_,
    fun machine name => ?_, fun dictionary table output calls => ?_⟩
  · exact (runCode_restores (invoke_keeps depth) code).atEnd machine
  · exact (runSource_restores (invoke_keeps depth) path source).atEnd machine
  · exact (evaluate_restores (invoke_keeps depth) source).atEnd machine
  · exact (invoke_keeps depth name).atEnd machine
  · have hkeeps := (Machine.start dictionary table output).afterCalls_keeps calls
    refine ⟨?_, hkeeps.word⟩
    have hcode := hkeeps.code
    generalize ((Machine.start dictionary table output).afterCalls calls).code = code at hcode ⊢
    cases hcode
    rfl

end Tabletop
