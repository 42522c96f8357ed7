import Tabletop.Proofs.Termination

/-!
# Robots stay on their table

An order that would take a robot off its table is refused, so whatever orders it is given, it stays
on the table, and on a table as large as 64 bits allow a move forward still computes exact sums
(`Robot.OnTable.aheadFits`). Nothing but orders changes the robot. So this holds all through a
session (`Machine.Confines`), between the calls as well as in the runs that they start, and however
these end.
-/

namespace Tabletop

open Exec

/-! ## Orders -/

/-- The robot is not placed, or it stands on a square of its table. -/
def Robot.OnTable (robot : Robot) : Prop :=
  ∀ pose ∈ robot.pose, 0 ≤ pose.x.toInt ∧ pose.x.toInt < robot.table.width.toInt ∧
    0 ≤ pose.y.toInt ∧ pose.y.toInt < robot.table.height.toInt

/-- The sum of two numbers of 64 bits is one, too. -/
def SumFits (a b : Int64) : Prop :=
  Int64.minValue.toInt ≤ a.toInt + b.toInt ∧ a.toInt + b.toInt ≤ Int64.maxValue.toInt

/-- Neither of the sums that a move forward computes leaves the range of 64 bits. -/
def Pose.AheadFits (pose : Pose) : Prop :=
  SumFits pose.x pose.facing.dx ∧ SumFits pose.y pose.facing.dy

theorem Table.contains_iff {table : Table} {x y : Int64} :
    table.Contains x y ↔ 0 ≤ x.toInt ∧ x.toInt < table.width.toInt ∧
      0 ≤ y.toInt ∧ y.toInt < table.height.toInt := by
  simp only [Table.Contains, Int64.le_iff_toInt_le, Int64.lt_iff_toInt_lt, Int64.toInt_zero]

theorem Direction.abs_step_le (d : Direction) :
    -1 ≤ d.dx.toInt ∧ d.dx.toInt ≤ 1 ∧ -1 ≤ d.dy.toInt ∧ d.dy.toInt ≤ 1 := by
  cases d <;> decide

/-- A coordinate on the table is less than a length of 64 bits, so it can be increased by one. -/
theorem Robot.OnTable.aheadFits {robot : Robot} (h : robot.OnTable) {pose : Pose}
    (hpose : pose ∈ robot.pose) : pose.AheadFits := by
  obtain ⟨hx, hx', hy, hy'⟩ := h pose hpose
  obtain ⟨hdx, hdx', hdy, hdy'⟩ := pose.facing.abs_step_le
  have hwidth := robot.table.width.toInt_lt
  have hheight := robot.table.height.toInt_lt
  simp only [Pose.AheadFits, SumFits, Int64.toInt_minValue, Int64.toInt_maxValue]
  omega

/-- The table is the same, a robot on the table is still there, and a robot that has been placed
still is. -/
structure Robot.Roams (before after : Robot) : Prop where
  table : after.table = before.table
  onTable : before.OnTable → after.OnTable
  placed : before.pose.isSome → after.pose.isSome

instance : IsPreorder Robot Robot.Roams where
  refl _ := ⟨rfl, id, id⟩
  trans _ _ _ h₁ h₂ := ⟨h₂.table.trans h₁.table, fun h => h₂.onTable (h₁.onTable h),
    fun h => h₂.placed (h₁.placed h)⟩

section Orders

variable {robot robot' : Robot}

/-- A robot that is put on a square of its table is on the table. -/
theorem Robot.roams_of_contains {pose : Pose} (h : robot.table.Contains pose.x pose.y) :
    robot.Roams { robot with pose := some pose } := by
  refine ⟨rfl, fun _ pose' hpose => ?_, fun _ => rfl⟩
  cases hpose
  exact Table.contains_iff.1 h

private theorem Robot.turn_roams {rotate : Direction → Direction}
    (h : robot.turn rotate = .ok robot') :
    robot.Roams robot' := by
  unfold Robot.turn at h
  cases hpose : robot.pose with
  | none =>
    rw [hpose] at h
    cases h
  | some pose =>
    rw [hpose] at h
    cases h
    refine ⟨rfl, fun htable pose' hpose' => ?_, fun _ => rfl⟩
    cases hpose'
    exact htable pose hpose

private theorem Robot.obey_roams {o : Order} (h : robot.obey o = .ok robot') :
    robot.Roams robot' := by
  cases o with
  | place x y facing =>
    by_cases hcontains : robot.table.Contains x y
    · rw [Robot.obey, if_pos hcontains] at h
      cases h
      exact Robot.roams_of_contains hcontains
    · rw [Robot.obey, if_neg hcontains] at h
      cases h
  | move =>
    cases hpose : robot.pose with
    | none => simp [Robot.obey, hpose] at h
    | some pose =>
      by_cases hcontains : robot.table.Contains pose.ahead.x pose.ahead.y
      · simp only [Robot.obey, hpose, if_pos hcontains] at h
        cases h
        exact Robot.roams_of_contains hcontains
      · simp [Robot.obey, hpose, if_neg hcontains] at h
  | left => exact Robot.turn_roams h
  | right => exact Robot.turn_roams h

theorem Robot.follow_roams (robot : Robot) (o : Order) : robot.Roams (robot.follow o).2.1 := by
  unfold Robot.follow
  cases hobey : robot.obey o with
  | ok robot' => exact Robot.obey_roams hobey
  | error refusal => exact refl_of Robot.Roams robot

end Orders

/-! ## Steps and words -/

/-- A machine that knows the built-in words still knows these and no others, and its robot stays on
its table. -/
def Machine.Confines (before after : Machine) : Prop :=
  before.dictionary = .ofGroups Builtin.Group.all →
    after.dictionary = .ofGroups Builtin.Group.all ∧ before.robot.Roams after.robot

instance : IsPreorder Machine Machine.Confines where
  refl machine hwords := ⟨hwords, refl_of Robot.Roams machine.robot⟩
  trans _ _ _ h₁ h₂ hwords :=
    have ⟨hwords', hroams⟩ := h₁ hwords
    have ⟨hwords'', hroams'⟩ := h₂ hwords'
    ⟨hwords'', trans_of Robot.Roams hroams hroams'⟩

private theorem Machine.confines_of_eq {before after : Machine}
    (hwords : after.dictionary = before.dictionary) (hrobot : after.robot = before.robot) :
    before.Confines after :=
  fun h => ⟨hwords.trans h, hrobot ▸ refl_of Robot.Roams before.robot⟩

/-- A computation that keeps the robot on its table, whether it fails or not. -/
abbrev Confining {α : Type} (x : Exec α) : Prop := Ensures x Machine.Confines fun _ => True

section Steps

variable {α : Type}

private theorem modify_confines {f : Machine → Machine}
    (hwords : ∀ m, (f m).dictionary = m.dictionary)
    (hrobot : ∀ m, (f m).robot = m.robot) : Confining (modify f) :=
  .modify fun machine => Machine.confines_of_eq (hwords machine) (hrobot machine)

private theorem record_confines (event : Event) : Confining (record event) :=
  modify_confines (fun _ => rfl) fun _ => rfl

private theorem push_confines (value : Value) : Confining (push value) :=
  modify_confines (fun _ => rfl) fun _ => rfl

private theorem pop_confines : Confining pop := by
  intro machine
  unfold pop
  cases machine.stack.pop? with
  | none => exact ⟨refl_of Machine.Confines machine, trivial⟩
  | some top => exact Machine.confines_of_eq rfl rfl

private theorem print_confines (text : String) : Confining (Exec.print text) := by
  refine .of_atEnd fun machine => ?_
  unfold Exec.print
  dsimp only
  split
  · exact Machine.confines_of_eq rfl rfl
  · exact Machine.confines_of_eq rfl rfl

private theorem position?_confines : Confining position? := .bind .get fun _ => .pure _

/-- Only orders change the robot. -/
theorem order_confines (o : Order) : Confining (order o) :=
  fun machine hwords => ⟨hwords, machine.robot.follow_roams o⟩

private theorem confining_steps : HoldsOfSteps fun _ x => Confining x where
  pure := .pure
  bind := .bind
  byState _ h := .bind .get h
  byStack _ h := .bind .get h
  pop := pop_confines
  push := push_confines
  mismatch _ _ := .throw trivial
  fail _ := .bind .get fun _ => .bind position?_confines fun _ => .throw trivial
  print := print_confines
  unreported := record_confines _
  order := order_confines

private theorem readCode_confines (read : Cursor.Read UInt8 α) : Confining (readCode read) := by
  intro machine
  unfold readCode
  cases machine.code with
  | none => exact ⟨refl_of Machine.Confines machine, trivial⟩
  | some cursor =>
    dsimp only
    cases read cursor with
    | ok a cursor' => exact Machine.confines_of_eq rfl rfl
    | error e cursor' => exact ⟨Machine.confines_of_eq rfl rfl, trivial⟩

private theorem Builtin.run_confines (b : Builtin) : Confining b.run := by
  have htarget : Confining Exec.readTarget := .bind (readCode_confines _) fun _ => .pure _
  have hjump : ∀ target, Confining (jumpTo target) := fun _ =>
    .bind (record_confines _) fun _ => readCode_confines _
  by_cases h : b.Steers
  · obtain rfl | rfl := h
    · refine .bind htarget fun target => .bind confining_steps.popBool fun flag => ?_
      exact .ite (hjump target) (.pure _)
    · exact .bind htarget hjump
  · exact Builtin.run_of_steps confining_steps h

private theorem invoke_confines (depth : Nat) (name : String) :
    Confining (invoke (depth + 1) name) := by
  refine .of_atEnd fun machine hwords => ?_
  cases hfind : machine.dictionary.find? name with
  | none =>
    rw [invoke_of_unknown hfind]
    exact refl_of Machine.Confines machine hwords
  | some word =>
    obtain ⟨b, rfl, -⟩ := Dictionary.eq_word_of_find?_ofGroups (hwords ▸ hfind)
    rw [invoke_of_builtin hfind, endState_restoreWord]
    exact b.run_confines.atEnd { machine with word := some name } hwords

end Steps

/-! ## Runs and calls -/

section Runs

variable {depth : Nat}

private theorem runStep_confines : Confining (runStep (invoke (depth + 1))) := by
  rw [runStep_eq]
  refine .bind position?_confines fun position => .bind (readCode_confines _) fun head => ?_
  cases head with
  | push literal => exact .bind (record_confines _) fun _ => push_confines _
  | exec name => exact .bind (record_confines _) fun _ => invoke_confines depth name

private theorem runLoop_confines (fuel : Nat) : Confining (runLoop (invoke (depth + 1)) fuel) := by
  induction fuel with
  | zero => exact .bind (readCode_confines _) fun more => .ite (.throw trivial) (.pure _)
  | succ fuel ih =>
    refine .bind (readCode_confines _) fun more => .ite ?_ (.pure _)
    exact .bind runStep_confines fun _ => ih

private theorem runCode_confines (code : Code) :
    Confining (Exec.runCode (invoke (depth + 1)) code) := by
  refine .of_atEnd fun machine => ?_
  have hloop := (@runLoop_confines depth code.length).atEnd (machine.enter code)
  rw [runCode_eq]
  cases hrun : runLoop (invoke (depth + 1)) code.length (machine.enter code) with
  | ok _ after =>
    rw [hrun] at hloop
    exact hloop
  | error stop after =>
    rw [hrun] at hloop
    cases stop with
    | failed e => exact hloop
    | outOfFuel => exact hloop

private theorem ofLogged_confines {α : Type} (logged : Logged α) : Confining (ofLogged logged) := by
  intro machine
  unfold ofLogged
  cases logged machine.journal with
  | ok a journal => exact Machine.confines_of_eq rfl rfl
  | error e journal => exact ⟨Machine.confines_of_eq rfl rfl, trivial⟩

private theorem runSource_confines (path source : String) :
    Confining (Exec.runSource (invoke (depth + 1)) path source) := by
  refine .bind (ofLogged_confines _) fun code => ?_
  exact .bind (modify_confines (fun _ => rfl) fun _ => rfl) fun _ => runCode_confines code

/-- The call runs a program or a word, takes a value or pushes one, or gives the robot an order. -/
def Call.IsDirect : Call → Prop
  | .runSource _ _ | .runCode _ | .evaluate _ | .execute _ => True
  | .push _ | .pushSize _ | .pop | .popInt | .popBool | .popDirection => True
  | .order _ => True
  | _ => False

private theorem Call.perform_confines {call : Call} (h : call.IsDirect) :
    Confining (call.perform (invoke (depth + 1))) := by
  cases call with
  | runSource path source => exact .bind (runSource_confines path source) fun _ => .pure _
  | runCode code => exact .bind (runCode_confines code) fun _ => .pure _
  | evaluate source =>
    exact .bind (.bind (ofLogged_confines _) fun code => runCode_confines code) fun _ => .pure _
  | execute name => exact .bind (invoke_confines depth name) fun _ => .pure _
  | push value => exact .bind (push_confines value) fun _ => .pure _
  | pushSize n => exact .bind (push_confines _) fun _ => .pure _
  | pop => exact .bind pop_confines fun _ => .pure _
  | popInt => exact .bind confining_steps.popInt fun _ => .pure _
  | popBool => exact .bind confining_steps.popBool fun _ => .pure _
  | popDirection => exact .bind confining_steps.popDirection fun _ => .pure _
  | order o => exact .bind (order_confines o) fun _ => .pure _
  | position | currentWord | readTarget | jumpTo | define | find | countWords | print | fail
  | andThen | attempt => exact h.elim

end Runs

/-! ## Sessions -/

/-- The second machine is the first at an instruction of a run that it starts, whatever the code
and the stack: both have the same robot and the same words when the run begins. -/
def Machine.During (machine moment : Machine) : Prop :=
  ∃ entered : Machine, entered.robot = machine.robot ∧ entered.dictionary = machine.dictionary ∧
    Relation.ReflTransGen (Iterates (invoke deepestCall)) entered moment

/-- The machine knows the built-in words and no others, and its robot is on the table, where it can
compute a move forward. -/
structure Machine.Secure (table : Table) (machine : Machine) : Prop where
  dictionary : machine.dictionary = .ofGroups Builtin.Group.all
  table : machine.robot.table = table
  onTable : machine.robot.OnTable
  aheadFits : ∀ pose ∈ machine.robot.pose, pose.AheadFits

section Sessions

variable {table : Table} {machine before after : Machine}

private theorem Machine.Secure.confines (h : before.Secure table)
    (hconfines : before.Confines after) :
    after.Secure table := by
  obtain ⟨hwords, hroams⟩ := hconfines h.dictionary
  have htable := hroams.onTable h.onTable
  exact ⟨hwords, hroams.table.trans h.table, htable, fun _ => htable.aheadFits⟩

private theorem Machine.perform_confines {call : Call} (h : call.IsDirect) (machine : Machine) :
    machine.Confines (endState (machine.perform call)) := by
  obtain ⟨depth, hdepth⟩ := exists_deepestCall
  rw [Machine.perform, hdepth]
  exact (Call.perform_confines h).atEnd machine

private theorem Machine.afterCalls_confines {calls : List Call} (h : ∀ call ∈ calls, call.IsDirect)
    (machine : Machine) : machine.Confines (machine.afterCalls calls) := by
  induction calls generalizing machine with
  | nil => exact refl_of Machine.Confines machine
  | cons call calls ih =>
    obtain ⟨hcall, hcalls⟩ := List.forall_mem_cons.1 h
    exact trans_of Machine.Confines (machine.perform_confines hcall) (ih hcalls _)

private theorem Machine.During.confines (h : before.During after) : before.Confines after := by
  obtain ⟨entered, hrobot, hwords, hreach⟩ := h
  have hentered : before.Confines entered := Machine.confines_of_eq hwords hrobot
  induction hreach with
  | refl => exact hentered
  | tail _ hstep ih =>
    obtain ⟨depth, hdepth⟩ := exists_deepestCall
    rw [hdepth] at hstep
    exact trans_of Machine.Confines ih (runStep_confines.ok hstep.2)

/-- On a table of any size, whatever programs are run, words called, values pushed and taken and
orders given, and whether they fail or not: the robot is not placed or stands on the table, the sums
of a move forward stay in the range of 64 bits, a robot that has been placed stays placed, and the
known words are the built-in ones. All this holds between the calls and at each instruction of the
runs that they start. -/
theorem robot_stays_on_table (table : Table) (output : Output) (calls : List Call)
    (hcalls : ∀ call ∈ calls, call.IsDirect) :
    let machine := (Machine.start (.ofGroups Builtin.Group.all) table output).afterCalls calls
    machine.Secure table ∧
    (∀ moment, machine.During moment → moment.Secure table ∧
      (machine.robot.pose.isSome → moment.robot.pose.isSome)) ∧
    ∀ call : Call, call.IsDirect →
      machine.robot.pose.isSome → (endState (machine.perform call)).robot.pose.isSome := by
  intro machine
  have hstart : (Machine.start (.ofGroups Builtin.Group.all) table output).Secure table :=
    ⟨rfl, rfl, (fun _ h => nomatch h), (fun _ h => nomatch h)⟩
  have hsecure : machine.Secure table := hstart.confines (Machine.afterCalls_confines hcalls _)
  refine ⟨hsecure, fun moment hduring => ?_, fun call hcall => ?_⟩
  · exact ⟨hsecure.confines hduring.confines, (hduring.confines hsecure.dictionary).2.placed⟩
  · exact (machine.perform_confines hcall hsecure.dictionary).2.placed

/-- A table as wide as 64 bits allow: the robot is put next to its east edge, moves there, and is
then told to move on by a program that fails behind that. -/
theorem robot_stays_on_table_widest :
    let calls : List Call := [.order (.place 9223372036854775805 0 .east), .execute "MOVE",
      .runCode [1, 77, 79, 86, 69, 0, 1, 43, 0]]
    let table : Table := ⟨Int64.maxValue, 1⟩
    let machine := (Machine.start (.ofGroups Builtin.Group.all) table (.empty [])).afterCalls calls
    machine.robot.pose = some ⟨9223372036854775806, 0, .east⟩ ∧ machine.Secure table := by
  intro calls table machine
  have hcalls : ∀ call ∈ calls, call.IsDirect := by simp [calls, Call.IsDirect]
  have hpose : machine.robot.pose = some ⟨9223372036854775806, 0, .east⟩ := by decide +kernel
  exact ⟨hpose, (robot_stays_on_table table (.empty []) calls hcalls).1⟩

end Sessions

end Tabletop
