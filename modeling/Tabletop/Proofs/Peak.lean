import Mathlib.Order.Bounds.Defs
import Tabletop.Proofs.Literals

/-!
# The peak of the stack

The stack counts every push for its peak, while words take values off the stack and put them back
one by one. But a word takes first and pushes last, and it pushes only once nothing can fail any
more. So a word that comes to its end leaves a peak that is no larger than it was before, or as
large as the stack is then, and a word that fails leaves it alone (`Builtin.run_counting`). Over a
whole run, the peak is the largest size of the stack between two instructions (`peak_exact`).
-/

namespace Tabletop

open Exec

/-- The outcome of something that the machine does, if it counts for the peak as a whole: by the
size of the stack at its end, and not at all if it fails. -/
def Machine.Counts {α : Type} (machine : Machine) : EStateM.Result Stop Machine α → Prop
  | .ok _ after => after.stack.peak = max machine.stack.peak after.stack.size
  | .error _ after => after.stack.peak = machine.stack.peak

/-- A computation that counts for the peak as a whole. -/
def Counting {α : Type} (x : Exec α) : Prop := ∀ machine : Machine, machine.Counts (x machine)

/-- The peak is the same. -/
def Machine.SamePeak (before after : Machine) : Prop := after.stack.peak = before.stack.peak

instance : IsPreorder Machine Machine.SamePeak where
  refl _ := rfl
  trans _ _ _ h₁ h₂ := Eq.trans h₂ h₁

/-- A computation that does not count for the peak. -/
abbrev Pushless {α : Type} (x : Exec α) : Prop := Ensures x Machine.SamePeak fun _ => True

section Computations

variable {α β : Type} {x : Exec α} {f : α → Exec β}

private theorem Ensures.counting (h : Pushless x) : Counting x := by
  intro machine
  cases hx : x machine with
  | ok a after =>
    have hsame : after.stack.peak = machine.stack.peak := h.ok hx
    exact hsame.trans (Nat.max_eq_left (hsame ▸ after.stack.size_le_peak)).symm
  | error stop after => exact (h.error hx).1

/-- What does not count for the peak may come first. -/
theorem Counting.after (hx : Pushless x) (hf : ∀ a, Counting (f a)) : Counting (x >>= f) := by
  intro machine
  cases h : x machine with
  | ok a middle =>
    have hsame : middle.stack.peak = machine.stack.peak := hx.ok h
    have hcounts := hf a middle
    rw [bind_eq_of_ok h]
    cases h' : f a middle with
    | ok b after =>
      rw [h'] at hcounts
      exact hcounts.trans (by rw [hsame])
    | error stop after =>
      rw [h'] at hcounts
      exact hcounts.trans hsame
  | error stop after =>
    rw [bind_eq_of_error h]
    exact (hx.error h).1

private theorem Stack.size_pushAll (stack : Stack) (values : List Value) :
    (stack.pushAll values).size = stack.size + values.length := by
  have hlist := congrArg List.length (stack.toList_pushAll values)
  simpa [Stack.toList, ← Stack.size_eq] using hlist

/-- Pushes that follow one another count by the last of them. -/
theorem Counting.of_pushAll {x : Exec Unit} (values : List Value)
    (h : ∀ machine : Machine,
      x machine = .ok () { machine with stack := machine.stack.pushAll values }) : Counting x := by
  intro machine
  rw [h machine]
  change (machine.stack.pushAll values).peak =
    max machine.stack.peak (machine.stack.pushAll values).size
  rw [Stack.peak_pushAll, Stack.size_pushAll]

end Computations

/-! ## Steps and words -/

section Steps

variable {α : Type}

private theorem Stack.peak_of_pop? {stack rest : Stack} {value : Value}
    (h : stack.pop? = some (value, rest)) : rest.peak = stack.peak := by
  unfold Stack.pop? at h
  split at h
  · cases h
  · cases h
    rfl

private theorem pop_pushless : Pushless pop := by
  intro machine
  unfold pop
  cases hpop : machine.stack.pop? with
  | none => exact ⟨rfl, trivial⟩
  | some top => exact Stack.peak_of_pop? hpop

private theorem popAs_pushless (kind : Kind) (get : Value → Option α) :
    Pushless (popAs kind get) := by
  refine .bind pop_pushless fun value => ?_
  unfold Value.expect
  cases get value with
  | none => exact .throw trivial
  | some a => exact .pure a

private theorem record_pushless (event : Event) : Pushless (record event) := .modify fun _ => rfl

private theorem readCode_pushless (read : Cursor.Read UInt8 α) : Pushless (readCode read) := by
  intro machine
  unfold readCode
  cases machine.code with
  | none => exact ⟨rfl, trivial⟩
  | some cursor =>
    dsimp only
    cases read cursor with
    | ok a cursor' => exact rfl
    | error e cursor' => exact ⟨rfl, trivial⟩

private theorem readTarget_pushless : Pushless Exec.readTarget :=
  .bind (readCode_pushless _) fun _ => .pure _

private theorem jumpTo_pushless (target : Nat) : Pushless (jumpTo target) :=
  .bind (record_pushless _) fun _ => readCode_pushless _

private theorem position?_pushless : Pushless position? := .bind .get fun _ => .pure _

private theorem fail_pushless (fault : Fault) : Pushless (fail fault : Exec α) :=
  .bind .get fun _ => .bind position?_pushless fun _ => .throw trivial

private theorem print_pushless (text : String) : Pushless (Exec.print text) := by
  refine .of_atEnd fun machine => ?_
  unfold Exec.print
  dsimp only
  split <;> rfl

private theorem order_pushless (o : Order) : Pushless (order o) := fun _ => rfl

private theorem push_counting (value : Value) : Counting (push value) :=
  .of_pushAll [value] fun _ => rfl

private theorem pushExact_counting (n : Int) : Counting (pushExact n) := by
  unfold pushExact
  cases Text.toInt64? n with
  | none => exact (fail_pushless .integerOverflow).counting
  | some n => exact push_counting (.int n)

/-- Every built-in word counts for the peak as a whole. -/
theorem Builtin.run_counting (b : Builtin) : Counting b.run := by
  have hint : Pushless popInt := popAs_pushless _ _
  have hbool : Pushless popBool := popAs_pushless _ _
  cases b with
  | branch =>
    refine Ensures.counting (.bind readTarget_pushless fun target => .bind hbool fun flag => ?_)
    exact .ite (jumpTo_pushless target) (.pure _)
  | jump => exact Ensures.counting (.bind readTarget_pushless jumpTo_pushless)
  | add | subtract | multiply =>
    exact .after hint fun _ => .after hint fun _ => pushExact_counting _
  | divide =>
    refine .after hint fun b => .after hint fun a => ?_
    split
    · exact (fail_pushless _).counting
    · exact pushExact_counting _
  | greater | less => exact .after hint fun _ => .after hint fun _ => push_counting _
  | equal => exact .after pop_pushless fun _ => .after pop_pushless fun _ => push_counting _
  | not => exact .after hbool fun _ => push_counting _
  | dup => exact .after pop_pushless fun value => .of_pushAll [value, value] fun _ => rfl
  | drop => exact Ensures.counting (.bind pop_pushless fun _ => .pure _)
  | swap =>
    refine .after pop_pushless fun b => .after pop_pushless fun a => ?_
    exact .of_pushAll [b, a] fun _ => rfl
  | copyOver =>
    refine .after pop_pushless fun b => .after pop_pushless fun a => ?_
    exact .of_pushAll [a, b, a] fun _ => rfl
  | depth => exact .after .get fun _ => push_counting _
  | print => exact Ensures.counting (.bind pop_pushless fun _ => print_pushless _)
  | printStack | printWords => exact Ensures.counting (.bind .get fun _ => print_pushless _)
  | place =>
    refine Ensures.counting (.bind (popAs_pushless _ _) fun facing => .bind hint fun y => ?_)
    exact .bind hint fun x => .bind (order_pushless _) fun _ => .pure _
  | move | left | right => exact Ensures.counting (.bind (order_pushless _) fun _ => .pure _)
  | report =>
    refine Ensures.counting (.bind .get fun machine => ?_)
    cases machine.robot.pose with
    | none => exact record_pushless _
    | some pose => exact print_pushless _

end Steps

/-! ## Instructions -/

section Instructions

variable {machine before after next : Machine} {depth : Nat} {name : String}
  {call : String → Exec Unit} {groups : List Builtin.Group}

theorem Machine.Counts.restoreWord {result : EStateM.Result Stop Machine Unit}
    (h : machine.Counts result) (word : Option String) :
    machine.Counts (restoreWord word result) := by
  cases result <;> exact h

private theorem invoke_counts (hwords : machine.dictionary = .ofGroups groups) :
    machine.Counts (invoke (depth + 1) name machine) := by
  cases hfind : machine.dictionary.find? name with
  | none =>
    rw [invoke_of_unknown hfind]
    exact rfl
  | some word =>
    obtain ⟨b, rfl, -⟩ := Dictionary.eq_word_of_find?_ofGroups (hwords ▸ hfind)
    rw [invoke_of_builtin hfind]
    exact (b.run_counting { machine with word := some name }).restoreWord machine.word

/-- An instruction counts for the peak as a whole. -/
theorem runStep_counts {cursor : Cursor UInt8} (hcode : machine.code = some cursor)
    (hwords : machine.dictionary = .ofGroups groups) :
    machine.Counts (runStep (invoke (depth + 1)) machine) := by
  cases hread : Instruction.readHead cursor with
  | error e cursor' =>
    rw [runStep_of_unreadable hcode hread]
    exact rfl
  | ok head cursor' =>
    rw [runStep_of_read hcode hread]
    cases head with
    | push literal => exact rfl
    | exec name =>
      exact @invoke_counts (machine.calling name cursor cursor') depth name groups hwords

theorem Iterates.unique (h : Iterates call machine next) (h' : Iterates call machine after) :
    after = next := by
  have hstep := h.2.symm.trans h'.2
  cases hstep
  rfl

/-- An instruction that is carried out to its end, by a machine that knows built-in words only. -/
theorem Iterates.counts (h : Iterates (invoke (depth + 1)) before after)
    (hwords : before.dictionary = .ofGroups groups) :
    after.stack.peak = max before.stack.peak after.stack.size ∧
      after.dictionary = .ofGroups groups := by
  obtain ⟨cursor, hcode⟩ := exists_code_of_hasCode h.1
  have hcounts := @runStep_counts before depth groups cursor hcode hwords
  have hknows := @runStep_knows groups before depth cursor hcode hwords
  rw [h.2] at hcounts hknows
  exact ⟨hcounts, hknows⟩

end Instructions

/-! ## Runs -/

/-- The sizes of the stack when the loop begins with the machine, and after each instruction that is
carried out to its end. -/
def sizes (call : String → Exec Unit) (machine : Machine) : Set Nat :=
  {n | ∃ moment, Relation.ReflTransGen (Iterates call) machine moment ∧ moment.stack.size = n}

section Runs

variable {machine before after : Machine} {depth : Nat} {groups : List Builtin.Group}

private theorem peak_le_of_iterates
    (h : Relation.ReflTransGen (Iterates (invoke (depth + 1))) before after)
    (hwords : before.dictionary = .ofGroups groups) :
    before.stack.peak ≤ after.stack.peak ∧ after.dictionary = .ofGroups groups := by
  induction h with
  | refl => exact ⟨Nat.le_refl _, hwords⟩
  | tail _ hstep ih =>
    obtain ⟨hle, hmiddle⟩ := ih
    obtain ⟨hpeak, hlast⟩ := hstep.counts hmiddle
    exact ⟨by omega, hlast⟩

/-- What the peak at the end of a loop has to do with the sizes of the stack on the way: it is no
smaller than it was at any time, and it is what it was at the beginning or one of the sizes. -/
def Machine.Tops (machine : Machine) (call : String → Exec Unit) (last : Machine) : Prop :=
  (∀ moment, Relation.ReflTransGen (Iterates call) machine moment →
    moment.stack.peak ≤ last.stack.peak) ∧
  ∃ n ∈ sizes call machine, last.stack.peak = max machine.stack.peak n

/-- A loop that carries no instruction out to its end leaves the peak alone. -/
theorem Machine.tops_of_stuck {call : String → Exec Unit} {last : Machine}
    (hstuck : ∀ next, ¬ Iterates call machine next)
    (hpeak : last.stack.peak = machine.stack.peak) : machine.Tops call last := by
  constructor
  · intro moment hreach
    rcases hreach.cases_head with rfl | ⟨next, hstep, -⟩
    · exact Nat.le_of_eq hpeak.symm
    · exact absurd hstep (hstuck next)
  · refine ⟨machine.stack.size, ⟨machine, .refl, rfl⟩, ?_⟩
    rw [hpeak, Nat.max_eq_left machine.stack.size_le_peak]

private theorem Loops.tops {count : Nat} {result : EStateM.Result Stop Machine Unit}
    (h : Loops (invoke (depth + 1)) machine count result)
    (hwords : machine.dictionary = .ofGroups groups) :
    machine.Tops (invoke (depth + 1)) (endState result) := by
  induction h with
  | ended hend =>
    refine Machine.tops_of_stuck (fun next hstep => ?_) rfl
    have hmore := hend.symm.trans hstep.1
    cases hmore
  | unstarted hfail =>
    refine Machine.tops_of_stuck (fun next hstep => ?_) ((readCode_pushless _).error hfail).1
    have hmore := hfail.symm.trans hstep.1
    cases hmore
  | @stopped machine after stop hmore hstop =>
    obtain ⟨cursor, hcode⟩ := exists_code_of_hasCode hmore
    have hcounts := @runStep_counts machine depth groups cursor hcode hwords
    rw [hstop] at hcounts
    refine Machine.tops_of_stuck (fun next hstep => ?_) hcounts
    have hnext := hstop.symm.trans hstep.2
    cases hnext
  | @next machine next count result hstep _ ih =>
    obtain ⟨hpeak, hnext⟩ := hstep.counts hwords
    obtain ⟨hbound, n, ⟨moment, hreach, hn⟩, hlast⟩ := ih hnext
    constructor
    · intro moment hreach
      rcases hreach.cases_head with rfl | ⟨next', hstep', hrest⟩
      · have hle := hbound next .refl
        omega
      · obtain rfl := hstep.unique hstep'
        exact hbound moment hrest
    -- The largest size is that after the first instruction, or one further on.
    · by_cases hle : next.stack.size ≤ n
      · exact ⟨n, ⟨moment, .head hstep hreach, hn⟩, by omega⟩
      · exact ⟨next.stack.size, ⟨next, .single hstep, rfl⟩, by omega⟩

private theorem Machine.stack_leave (machine : Machine)
    (result : EStateM.Result Stop Machine Unit) :
    (endState (machine.leave result)).stack = (endState result).stack := by
  cases result with
  | ok _ after => rfl
  | error stop after => cases stop <;> rfl

/-- Whatever the machine, if it knows the built-in words, the run of a program comes to its end or
stops because of an error, and then the peak is the largest size that the stack had at the start of
the run or after an instruction that was carried out to its end. At no time is it less than the
size of the stack or less than before. -/
theorem peak_exact {path source : String} {code : Code} (hcode : codeOf path source = .ok code)
    (hwords : machine.dictionary = .ofGroups Builtin.Group.all) :
    let call := invoke deepestCall
    let result := Exec.runSource call path source machine
    ∃ journal count loop,
      let start := Machine.enter { machine with stack := .empty, journal } code
      Loops call start count loop ∧ result = machine.leave loop ∧
      (∀ stop after, result = .error stop after → stop.IsError) ∧
      IsGreatest (sizes call start) (endState result).stack.peak ∧
      (endState result).stack.size ≤ (endState result).stack.peak ∧
      ∀ before after, Relation.ReflTransGen (Iterates call) start before →
        Relation.ReflTransGen (Iterates call) before after →
        before.stack.size ≤ before.stack.peak ∧ before.stack.peak ≤ after.stack.peak ∧
          after.stack.peak ≤ (endState result).stack.peak := by
  obtain ⟨depth, hdepth⟩ := exists_deepestCall
  rw [hdepth]
  intro call result
  let journal : Journal := (loadLog path source).reverse ++ machine.journal
  have hrun := runSource_of_ok hcode machine
  rw [hdepth] at hrun
  obtain ⟨count, loop, hloops, hleave⟩ :=
    exists_loops_of_runCode { machine with stack := .empty, journal } code (depth + 1)
  have hresult : result = machine.leave loop := hrun.trans hleave
  have hstack : (endState result).stack = (endState loop).stack := by
    rw [hresult, Machine.stack_leave]
  obtain ⟨hbound, n, hn, hlast⟩ := hloops.tops hwords
  refine ⟨journal, count, loop, hloops, hresult, ?_, ⟨?_, ?_⟩,
    (endState result).stack.size_le_peak, ?_⟩
  · intro stop after hstop
    exact isError_of_leave (hloops.knows hwords) (hresult.symm.trans hstop)
  · -- The run begins with an empty stack, whose peak is 0.
    rw [hstack, hlast]
    have hempty : max Stack.empty.peak n = n := Nat.max_eq_right (Nat.zero_le n)
    exact hempty ▸ hn
  · rintro _ ⟨moment, hreach, rfl⟩
    rw [hstack]
    exact Nat.le_trans moment.stack.size_le_peak (hbound moment hreach)
  · intro before after hbefore hafter
    have hknown := (peak_le_of_iterates hbefore hwords).2
    refine ⟨before.stack.size_le_peak, (peak_le_of_iterates hafter hknown).1, ?_⟩
    rw [hstack]
    exact hbound after (hbefore.trans hafter)

/-- A program that pushes a third value and then takes one more than there are. The machine has had
more values on its stack before. -/
theorem peak_exact_underflow :
    let source := "1 2 OVER DROP DROP DROP DROP"
    let machine : Machine := { Machine.standard .standard with
      stack := Stack.empty.pushAll (List.replicate 9 (.bool true)) }
    let result := Exec.runSource (invoke deepestCall) "p" source machine
    failure? result = some (.runtime .stackUnderflow) ∧ (endState result).stack.peak = 3 ∧
      ∃ code journal, codeOf "p" source = .ok code ∧
        IsGreatest (sizes (invoke deepestCall)
          (Machine.enter { machine with stack := .empty, journal } code)) 3 := by
  intro source machine result
  have hwords : machine.dictionary = .ofGroups Builtin.Group.all := rfl
  have hfailure : failure? result = some (.runtime .stackUnderflow) := by decide +kernel
  have hpeak : (endState result).stack.peak = 3 := by decide +kernel
  obtain ⟨code, hcode⟩ := @exists_codeOf "p" source (by decide +kernel)
  refine ⟨hfailure, hpeak, code, ?_⟩
  -- From here on the run is not to be evaluated.
  clear_value machine source
  obtain ⟨journal, _, _, -, -, -, hgreatest, -⟩ := peak_exact hcode hwords
  exact ⟨journal, hcode, hpeak ▸ hgreatest⟩

end Runs

end Tabletop
