import Tabletop.Proofs.Straight

/-!
# Runs and their surroundings

A run works on the top of the stack, prints behind what has been printed before and adds to the
journal. The values that lie deeper, the earlier output and the earlier entries are its
surroundings. Steps take no notice of them (`Indifferent`), apart from the two words that look at
the stack as a whole, and from a stack that is found empty where it is not the whole stack. So a run
that does without these ends in the same way in other surroundings (`runCode_mirrors`), and leaves
them as they are. Two runs that start on the same stack also make the same entries.
-/

namespace Tabletop

open Exec

/-! ## Output piece by piece -/

namespace Output

/-- Print several pieces, one after another, each as far as it is taken. -/
def appendAll (output : Output) (pieces : List (List UInt8)) : Output := pieces.foldl append output

private theorem appendAll_concat (output : Output) (pieces : List (List UInt8))
    (bytes : List UInt8) :
    output.appendAll (pieces ++ [bytes]) = (output.appendAll pieces).append bytes := by
  simp [appendAll]

/-- The limits depend on what is printed and not on what was printed before. -/
theorem limits_appendAll {output output' : Output} (h : output'.limits = output.limits)
    (pieces : List (List UInt8)) :
    (output'.appendAll pieces).limits = (output.appendAll pieces).limits := by
  induction pieces generalizing output output' with
  | nil => exact h
  | cons bytes pieces ih => exact ih (congrArg (Limit.left bytes) h)

theorem appendAll_of_unlimited {output : Output} (h : output.limits = [])
    (pieces : List (List UInt8)) :
    output.appendAll pieces = ⟨pieces.flatten.reverse ++ output.written, []⟩ := by
  induction pieces generalizing output with
  | nil => exact Output.ext rfl h
  | cons bytes pieces ih =>
    have hfirst := append_eq_of_unlimited h bytes
    change (output.append bytes).appendAll pieces = _
    rw [hfirst, ih rfl]
    simp

end Output

/-! ## Machines in their surroundings -/

/-- What lies around the runs of two machines: values on the second stack below those of the first,
from the top down, and what each of them has printed and told before. A journal tells of the peak,
so journals are compared only for runs on the same stack. -/
structure Surroundings where
  below : List Value
  past : Output
  past' : Output
  limits_eq : past'.limits = past.limits
  log : Journal
  log' : Journal
  sameStack : Prop

/-- The two machines know the built-in words and differ in their surroundings only. -/
structure Machine.Within (around : Surroundings) (inner outer : Machine) : Prop where
  stack : outer.stack.values = inner.stack.values ++ around.below
  sameStack : around.sameStack → outer.stack = inner.stack
  output : ∃ pieces, inner.output = around.past.appendAll pieces ∧
    outer.output = around.past'.appendAll pieces
  journal : around.sameStack → ∃ entries, inner.journal = entries ++ around.log ∧
    outer.journal = entries ++ around.log'
  code : outer.code = inner.code
  word : outer.word = inner.word
  robot : outer.robot = inner.robot
  words : inner.dictionary = .ofGroups Builtin.Group.all
  dictionary : outer.dictionary = inner.dictionary

/-- Only a machine with values below finds a value where the other one finds none. -/
def Surroundings.Excuses (around : Surroundings) (stop : Stop) : Prop :=
  around.below ≠ [] ∧ stop = .failed (.runtime .stackUnderflow)

/-- The outcomes differ in the surroundings only. -/
abbrev MirrorsWithin {α : Type} (around : Surroundings)
    (inner outer : EStateM.Result Stop Machine α) : Prop :=
  Mirrors (Machine.Within around) around.Excuses inner outer

/-- A step that takes no notice of the surroundings. -/
def Indifferent {α : Type} (around : Surroundings) (x : Exec α) : Prop :=
  ∀ inner outer, Machine.Within around inner outer → MirrorsWithin around (x inner) (x outer)

section Steps

variable {α β : Type} {around : Surroundings}

/-! ## The steps of words -/

theorem Indifferent.pure (a : α) : Indifferent around (pure a) := fun _ _ h => .ok h

theorem Indifferent.throw (stop : Stop) : Indifferent around (throw stop : Exec α) :=
  fun _ _ h => .error h

theorem Indifferent.bind {x : Exec α} {f : α → Exec β} (hx : Indifferent around x)
    (hf : ∀ a, Indifferent around (f a)) : Indifferent around (x >>= f) := by
  intro inner outer h
  exact (hx inner outer h).bind fun a inner' outer' _ h' => hf a inner' outer' h'

theorem Indifferent.ite {c : Prop} [Decidable c] {x y : Exec α} (hx : Indifferent around x)
    (hy : Indifferent around y) : Indifferent around (if c then x else y) := by
  split
  · exact hx
  · exact hy

/-- A step that goes by the state takes no notice of the surroundings if it is the same for machines
that differ there only. -/
theorem Indifferent.byState {f : Machine → Exec α}
    (hsame : ∀ inner outer, Machine.Within around inner outer → f outer = f inner)
    (hf : ∀ machine, Indifferent around (f machine)) : Indifferent around (get >>= f) := by
  intro inner outer h
  have hget : (get >>= f) outer = f inner outer := congrFun (hsame inner outer h) outer
  rw [hget]
  exact hf inner inner outer h

private theorem push_indifferent (value : Value) : Indifferent around (push value) := by
  intro inner outer h
  exact .ok { h with
    stack := congrArg (value :: ·) h.stack
    sameStack := fun hsame => congrArg (Stack.push · value) (h.sameStack hsame) }

/-- Behind different entries, the same is told. -/
theorem Machine.Within.tell {inner outer : Machine} (h : inner.Within around outer)
    (new : Journal) {new' : Journal} (hnew : around.sameStack → new' = new) :
    ({ inner with journal := new ++ inner.journal } : Machine).Within around
      { outer with journal := new' ++ outer.journal } := by
  refine { h with journal := fun hsame => ?_ }
  obtain ⟨entries, hinner, houter⟩ := h.journal hsame
  refine ⟨new ++ entries, ?_, ?_⟩
  · rw [hinner, List.append_assoc]
  · rw [houter, hnew hsame, List.append_assoc]

private theorem record_indifferent (event : Event) : Indifferent around (record event) :=
  fun _ _ h => .ok (h.tell [event] fun _ => rfl)

private theorem pop_indifferent : Indifferent around pop := by
  intro inner outer h
  have hstack := h.stack
  unfold pop
  cases hvalues : inner.stack.values with
  | nil =>
    rw [Stack.pop?_of_nil hvalues]
    by_cases hbelow : around.below = []
    · rw [hvalues, hbelow] at hstack
      rw [Stack.pop?_of_nil hstack]
      exact .error h
    · exact .inl ⟨hbelow, rfl⟩
  | cons value values =>
    rw [hvalues, List.cons_append] at hstack
    obtain ⟨rest, hpop, hrest⟩ := Stack.pop?_of_cons hvalues
    obtain ⟨rest', hpop', hrest'⟩ := Stack.pop?_of_cons hstack
    have hsame : around.sameStack → rest' = rest := by
      intro hsame
      rw [h.sameStack hsame, hpop] at hpop'
      cases hpop'
      rfl
    rw [hpop, hpop']
    exact .ok { h with
      stack := hrest'.trans (congrArg (· ++ around.below) hrest.symm)
      sameStack := hsame }

private theorem order_indifferent (o : Order) : Indifferent around (order o) := by
  intro inner outer h
  simp only [order, h.robot]
  exact .ok { h.tell _ (fun _ => rfl) with robot := rfl }

theorem Machine.Within.limits {inner outer : Machine} (h : inner.Within around outer) :
    outer.output.limits = inner.output.limits := by
  obtain ⟨pieces, hinner, houter⟩ := h.output
  rw [hinner, houter, Output.limits_appendAll around.limits_eq]

/-- Behind different pasts, the same is printed. -/
theorem Machine.Within.append {inner outer : Machine} (h : inner.Within around outer)
    (bytes : List UInt8) :
    ({ inner with output := inner.output.append bytes } : Machine).Within around
      { outer with output := outer.output.append bytes } := by
  obtain ⟨pieces, hinner, houter⟩ := h.output
  refine { h with output := ⟨pieces ++ [bytes], ?_, ?_⟩ }
  · rw [hinner, Output.appendAll_concat]
  · rw [houter, Output.appendAll_concat]

private theorem print_indifferent (text : String) : Indifferent around (Exec.print text) := by
  intro inner outer h
  have hafter := h.append (Text.utf8 text)
  unfold Exec.print
  dsimp only
  rw [h.limits]
  cases Limit.blocked? (Text.utf8 text) inner.output.limits with
  | none => exact .ok hafter
  | some message => exact .error hafter

private theorem fail_indifferent (fault : Fault) : Indifferent around (fail fault : Exec α) := by
  intro inner outer h
  have hfail : ∀ machine : Machine, (fail fault : Exec α) machine =
      .error (.failed (.runtime (.wordFailed (machine.word.getD "<none>")
        ((machine.code.map Cursor.position).getD 0) fault))) machine := fun _ => rfl
  rw [hfail, hfail, h.word, h.code]
  exact .error h

private theorem indifferent_steps : HoldsOfLocalSteps fun _ x => Indifferent around x where
  pure := .pure
  bind := .bind
  byState hsame h := .byState (fun inner outer hwithin =>
    hsame outer inner hwithin.dictionary hwithin.robot) h
  pop := pop_indifferent
  push := push_indifferent
  mismatch _ _ := .throw _
  fail := fail_indifferent
  print := print_indifferent
  unreported := record_indifferent _
  order := order_indifferent

/-! ## Words -/

private theorem readCode_indifferent (read : Cursor.Read UInt8 α) :
    Indifferent around (readCode read) := by
  intro inner outer h
  unfold readCode
  rw [h.code]
  cases inner.code with
  | none => exact .error h
  | some cursor =>
    dsimp only
    cases read cursor with
    | ok a cursor' => exact .ok { h with code := rfl }
    | error e cursor' => exact .error { h with code := rfl }

private theorem readTarget_indifferent : Indifferent around Exec.readTarget :=
  .bind (readCode_indifferent _) fun _ => .pure _

private theorem jumpTo_indifferent (target : Nat) : Indifferent around (jumpTo target) :=
  .bind (record_indifferent _) fun _ => readCode_indifferent _

private theorem depth_indifferent (hbelow : around.below = []) :
    Indifferent around Builtin.depth.run := by
  refine .byState (fun inner outer h => ?_) fun _ => push_indifferent _
  rw [outer.stack.size_eq, inner.stack.size_eq, h.stack, hbelow, List.append_nil]

private theorem printStack_indifferent (hbelow : around.below = []) :
    Indifferent around Builtin.printStack.run := by
  refine .byState (fun inner outer h => ?_) fun _ => print_indifferent _
  have htext : outer.stack.text = inner.stack.text := by
    rw [Stack.text, Stack.text, Stack.toList, Stack.toList, outer.stack.size_eq,
      inner.stack.size_eq, h.stack, hbelow, List.append_nil]
  rw [htext]

/-- A word that looks at the stack as a whole takes no notice of the surroundings either, if there
are no values below. -/
theorem Builtin.run_indifferent {b : Builtin} (h : b.Surveys → around.below = []) :
    Indifferent around b.run := by
  by_cases hsteers : b.Steers
  · obtain rfl | rfl := hsteers
    · refine .bind readTarget_indifferent fun target => ?_
      exact .bind indifferent_steps.popBool fun flag => .ite (jumpTo_indifferent target) (.pure _)
    · exact .bind readTarget_indifferent jumpTo_indifferent
  · by_cases hsurveys : b.Surveys
    · have hbelow := h hsurveys
      obtain rfl | rfl := hsurveys
      · exact depth_indifferent hbelow
      · exact printStack_indifferent hbelow
    · exact Builtin.run_of_local_steps indifferent_steps hsteers hsurveys

theorem MirrorsWithin.restoreWord {result result' : EStateM.Result Stop Machine Unit}
    (h : MirrorsWithin around result result') (word : Option String) :
    MirrorsWithin around (restoreWord word result) (restoreWord word result') := by
  cases result with
  | ok _ after =>
    obtain ⟨after', rfl, hafter⟩ := h
    exact .ok { hafter with word := rfl }
  | error stop after =>
    rcases h with hexcuse | ⟨after', rfl, hafter⟩
    · exact .inl hexcuse
    · exact .error { hafter with word := rfl }

private theorem invoke_indifferent {depth : Nat} {name : String}
    (h : ∀ b : Builtin, b.Surveys → name = b.name → around.below = []) :
    Indifferent around (invoke (depth + 1) name) := by
  intro inner outer hwithin
  have hfind : inner.dictionary.find? name = (Builtin.ofName? name).map Builtin.word := by
    rw [hwithin.words, Dictionary.find?_all]
  have hfind' := hfind
  rw [← hwithin.dictionary] at hfind'
  cases hb : Builtin.ofName? name with
  | none =>
    rw [hb] at hfind hfind'
    rw [invoke_of_unknown hfind, invoke_of_unknown hfind']
    exact .error hwithin
  | some b =>
    rw [hb] at hfind hfind'
    rw [invoke_of_builtin hfind, invoke_of_builtin hfind', hwithin.word]
    have hrun := Builtin.run_indifferent fun hsurveys => h b hsurveys (Builtin.ofName?_eq_some.1 hb)
    have hnamed : ({ inner with word := some name } : Machine).Within around
        { outer with word := some name } := { hwithin with word := rfl }
    exact (hrun _ _ hnamed).restoreWord inner.word

end Steps

/-! ## Which words a run executes -/

/-- The instruction that the machine reads next calls the word. -/
def Begins (machine : Machine) (name : String) : Prop :=
  ∃ cursor cursor', machine.code = some cursor ∧
    Instruction.readHead cursor = .ok (.exec name) cursor'

/-- Some instruction of the loop that begins with the machine calls the word. -/
def Executes (call : String → Exec Unit) (machine : Machine) (name : String) : Prop :=
  ∃ reached, Relation.ReflTransGen (Iterates call) machine reached ∧ Begins reached name

section Runs

variable {call : String → Exec Unit} {machine next inner outer : Machine} {name : String}
  {around : Surroundings} {depth : Nat}

private theorem Executes.of_iterates (h : Iterates call machine next)
    (hnext : Executes call next name) :
    Executes call machine name := by
  obtain ⟨reached, hreach, hbegins⟩ := hnext
  exact ⟨reached, .head h hreach, hbegins⟩

/-- A word is executed first of all, or after the first instruction. -/
theorem Executes.cases_head (h : Executes call machine name) :
    Begins machine name ∨ ∃ next, Iterates call machine next ∧ Executes call next name := by
  obtain ⟨reached, hreach, hbegins⟩ := h
  rcases hreach.cases_head with rfl | ⟨next, hstep, hrest⟩
  · exact .inl hbegins
  · exact .inr ⟨next, hstep, reached, hrest, hbegins⟩

/-! ## Runs -/

private theorem begins_of_readCode {reached : Machine}
    (h : readCode Instruction.readHead machine = .ok (.exec name) reached) :
    Begins machine name := by
  unfold readCode at h
  cases hcode : machine.code with
  | none => simp [hcode] at h
  | some cursor =>
    simp only [hcode] at h
    cases hread : Instruction.readHead cursor with
    | ok head cursor' =>
      rw [hread] at h
      cases h
      exact ⟨cursor, cursor', hcode, hread⟩
    | error e cursor' =>
      rw [hread] at h
      cases h

private theorem runStep_mirrors (h : inner.Within around outer)
    (hcall : ∀ name, Begins inner name → Indifferent around (call name)) :
    MirrorsWithin around (runStep call inner) (runStep call outer) := by
  have hposition : Indifferent around position? :=
    .byState (fun _ _ hwithin => by rw [hwithin.code]) fun _ => .pure _
  rw [runStep_eq]
  refine (hposition inner outer h).bind fun position inner' outer' hsame h' => ?_
  -- Looking up the position changes nothing, so the head is read by the machine we began with.
  obtain rfl : inner = inner' := by
    cases hsame
    rfl
  refine (readCode_indifferent _ inner outer' h').bind fun head inner' outer' hread h' => ?_
  cases head with
  | push literal =>
    have hpush : Indifferent around (carryOut call (position.getD 0) (.push literal)) :=
      .bind (record_indifferent _) fun _ => push_indifferent _
    exact hpush inner' outer' h'
  | exec name =>
    have hexec : Indifferent around (carryOut call (position.getD 0) (.exec name)) :=
      .bind (record_indifferent _) fun _ => hcall name (begins_of_readCode hread)
    exact hexec inner' outer' h'

/-- There are no values below, or no word that is executed looks at the stack as a whole. -/
def Surroundings.Hidden (around : Surroundings) (call : String → Exec Unit) (machine : Machine) :
    Prop :=
  ∀ b : Builtin, b.Surveys → Executes call machine b.name → around.below = []

private theorem runLoop_mirrors (h : inner.Within around outer)
    (hhidden : around.Hidden (invoke (depth + 1)) inner) (fuel : Nat) :
    MirrorsWithin around (runLoop (invoke (depth + 1)) fuel inner)
      (runLoop (invoke (depth + 1)) fuel outer) := by
  have hmore : Indifferent around hasCode := readCode_indifferent _
  induction fuel generalizing inner outer with
  | zero => exact hmore.bind (fun _ => .ite (.throw _) (.pure _)) inner outer h
  | succ fuel ih =>
    refine (hmore inner outer h).bind fun more inner' outer' hsame h' => ?_
    cases more with
    | false => exact .ok h'
    | true =>
      obtain ⟨cursor, hcode⟩ := exists_code_of_hasCode hsame
      obtain rfl : inner = inner' :=
        (EStateM.Result.ok.inj ((hasCode_of_code hcode).symm.trans hsame)).2
      have hstep := @runStep_mirrors (invoke (depth + 1)) inner outer' around h' fun name hbegins =>
        invoke_indifferent fun b hsurveys heq => hhidden b hsurveys ⟨inner, .refl, heq ▸ hbegins⟩
      refine hstep.bind fun _ next next' hrun hnext => ih hnext fun b hsurveys hexecutes => ?_
      exact hhidden b hsurveys (.of_iterates ⟨hsame, hrun⟩ hexecutes)

theorem MirrorsWithin.leave {result result' : EStateM.Result Stop Machine Unit}
    (h : MirrorsWithin around result result') (hwithin : inner.Within around outer) :
    MirrorsWithin around (inner.leave result) (outer.leave result') := by
  cases result with
  | ok _ after =>
    obtain ⟨after', rfl, hafter⟩ := h
    have hpeak : around.sameStack →
        [Event.finished after'.stack.peak] = [.finished after.stack.peak] := by
      intro hsame
      rw [hafter.sameStack hsame]
    exact .ok { hafter.tell _ hpeak with code := hwithin.code }
  | error stop after =>
    rcases h with ⟨hbelow, rfl⟩ | ⟨after', rfl, hafter⟩
    · exact .inl ⟨hbelow, rfl⟩
    · cases stop with
      | failed e =>
        exact .error { hafter.tell [.stopped e] (fun _ => rfl) with code := hwithin.code }
      | outOfFuel => exact .error { hafter with code := hwithin.code }

/-- A run ends in the same way in other surroundings, unless it notices them. -/
theorem runCode_mirrors {code : Code} (h : inner.Within around outer)
    (hhidden : around.Hidden (invoke (depth + 1)) (inner.enter code)) :
    MirrorsWithin around (Exec.runCode (invoke (depth + 1)) code inner)
      (Exec.runCode (invoke (depth + 1)) code outer) := by
  have hentered : (inner.enter code).Within around (outer.enter code) :=
    { h.tell [.started code.length] (fun _ => rfl) with code := rfl }
  exact (runLoop_mirrors hentered hhidden code.length).leave h

end Runs

/-! ## Values below -/

theorem Machine.Within.toList {around : Surroundings} {inner outer : Machine}
    (h : inner.Within around outer) :
    outer.stack.toList = around.below.reverse ++ inner.stack.toList := by
  rw [Stack.toList, Stack.toList, h.stack, List.reverse_append]

/-- A run works on the values that it takes off the stack. If it neither looks at the stack as a
whole nor finds it empty where it needs a value, then with other values below it ends with the same
outcome, robot and output, and leaves those values below its own. -/
theorem stack_locality (code : Code) (machine : Machine) (stack : Stack) (below : List Value)
    (depth : Nat) (hwords : machine.dictionary = .ofGroups Builtin.Group.all)
    (hstack : stack.toList = below ++ machine.stack.toList)
    (hdepth : ¬ Executes (invoke (depth + 1)) (machine.enter code) Builtin.depth.name)
    (hprint : ¬ Executes (invoke (depth + 1)) (machine.enter code) Builtin.printStack.name)
    (hempty : ∀ after, Exec.runCode (invoke (depth + 1)) code machine ≠
      .error (.failed (.runtime .stackUnderflow)) after) :
    viewState (fun after => (after.stack.toList, after.robot, after.output))
        (Exec.runCode (invoke (depth + 1)) code { machine with stack }) =
      viewState (fun after => (below ++ after.stack.toList, after.robot, after.output))
        (Exec.runCode (invoke (depth + 1)) code machine) := by
  let around : Surroundings :=
    ⟨below.reverse, machine.output, machine.output, rfl, [], [], False⟩
  have hvalues : stack.values = machine.stack.values ++ below.reverse := by
    rw [← List.reverse_inj, List.reverse_append, List.reverse_reverse]
    exact hstack
  have hwithin : machine.Within around { machine with stack } :=
    ⟨hvalues, False.elim, ⟨[], rfl, rfl⟩, False.elim, rfl, rfl, rfl, hwords, rfl⟩
  have hhidden : around.Hidden (invoke (depth + 1)) (machine.enter code) := by
    rintro b (rfl | rfl) hexecutes
    · exact absurd hexecutes hdepth
    · exact absurd hexecutes hprint
  have hview : ∀ {inner outer : Machine}, inner.Within around outer →
      (outer.stack.toList, outer.robot, outer.output) =
        (below ++ inner.stack.toList, inner.robot, inner.output) := by
    intro inner outer h
    obtain ⟨pieces, hinner, houter⟩ := h.output
    rw [h.toList, h.robot, hinner, houter, List.reverse_reverse]
  have hmirrors := runCode_mirrors hwithin hhidden
  cases hrun : Exec.runCode (invoke (depth + 1)) code machine with
  | ok _ after =>
    rw [hrun] at hmirrors
    obtain ⟨after', hrun', h⟩ := hmirrors
    rw [hrun']
    exact congrArg (EStateM.Result.ok ()) (hview h)
  | error stop after =>
    rw [hrun] at hmirrors
    rcases hmirrors with ⟨-, rfl⟩ | ⟨after', hrun', h⟩
    · exact absurd hrun (hempty after)
    · rw [hrun']
      exact congrArg (EStateM.Result.error stop) (hview h)

/-- A division by zero, where the dividend lay on the stack before and another value below it. -/
theorem stack_locality_division :
    let code : Code := [0, 0, 0, 1, 47, 0]
    let machine : Machine := { Machine.start (.ofGroups Builtin.Group.all) .standard (.empty [])
      with stack := Stack.empty.push (.int 7) }
    let stack := (Stack.empty.push (.bool true)).push (.int 7)
    viewState (fun after => (after.stack.toList, after.robot, after.output))
        (Exec.runCode (invoke 1) code { machine with stack }) =
      viewState (fun after => ([.bool true] ++ after.stack.toList, after.robot, after.output))
        (Exec.runCode (invoke 1) code machine) := by
  intro code machine stack
  let second : Cursor UInt8 := (Cursor.start code).ahead 3 (by decide)
  let divides := (machine.enter code).pushing (.int 0) (.start code) second
  let fault := Error.runtime (.wordFailed "/" 6 .divisionByZero)
  have hpush : runStep (invoke 1) (machine.enter code) = .ok () divides := rfl
  have hbegun : begun second = [.called 3 "/"] := by decide +kernel
  have hdivide : failure? (runStep (invoke 1) divides) = some fault := by decide +kernel
  have hrun : failure? (Exec.runCode (invoke 1) code machine) = some fault := by decide +kernel
  -- Two instructions are read: a literal, and the division, behind which there is no other.
  have hexecutes : ∀ name, Executes (invoke 1) (machine.enter code) name → name = "/" := by
    intro name hname
    rcases hname.cases_head with ⟨cursor, cursor', hcode, hread⟩ | ⟨next, ⟨-, hnext⟩, hname⟩
    · cases hcode
      cases hread
    · cases hpush.symm.trans hnext
      rcases hname.cases_head with ⟨cursor, cursor', hcode, hread⟩ | ⟨next, ⟨-, hnext⟩, -⟩
      · cases hcode
        cases (begun_of_ok hread).symm.trans hbegun
        rfl
      · rw [hnext] at hdivide
        cases hdivide
  refine stack_locality code machine stack [.bool true] 0 rfl rfl ?_ ?_ ?_
  · exact fun h => absurd (hexecutes _ h) (by decide)
  · exact fun h => absurd (hexecutes _ h) (by decide)
  · intro after h
    simp [h, failure?, fault] at hrun

end Tabletop
