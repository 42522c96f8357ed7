import Tabletop.Machine.Builtin

/-!
# What built-in words are made of

A built-in word that does not steer the run is put together from a few steps: it takes values off
the stack and pushes others, prints, gives the robot orders, or gives up. What holds of each step
and of everything that is put together from such steps (`HoldsOfSteps`) holds of the word
(`Builtin.run_of_steps`), so a fact about all of these words takes a proof for the steps only.

Two words look at the stack as a whole. What holds of the other steps (`HoldsOfLocalSteps`) holds of
the words that do not (`Builtin.run_of_local_steps`).
-/

namespace Tabletop

open Exec

/-- The property holds of the steps that built-in words are made of, and of steps that follow one
another. Apart from the values that it takes off the stack, what a word does depends on the known
words and the robot. -/
structure HoldsOfLocalSteps (P : ∀ α : Type, Exec α → Prop) : Prop where
  pure : ∀ {α : Type} (a : α), P α (pure a)
  bind : ∀ {α β : Type} {x : Exec α} {f : α → Exec β}, P α x → (∀ a, P β (f a)) → P β (x >>= f)
  byState : ∀ {α : Type} {f : Machine → Exec α},
    (∀ a b : Machine, a.dictionary = b.dictionary → a.robot = b.robot → f a = f b) →
    (∀ machine, P α (f machine)) → P α (get >>= f)
  pop : P Value pop
  push : ∀ value, P Unit (push value)
  mismatch : ∀ {α : Type} (kind : Kind) (value : Value), P α (raise (.typeMismatch kind value))
  fail : ∀ {α : Type} (fault : Fault), P α (fail fault)
  print : ∀ text, P Unit (Exec.print text)
  unreported : P Unit (record .unreported)
  order : ∀ o, P Bool (order o)

/-- The same with steps that go by the stack as a whole. -/
structure HoldsOfSteps (P : ∀ α : Type, Exec α → Prop) : Prop extends HoldsOfLocalSteps P where
  byStack : ∀ {α : Type} {f : Machine → Exec α},
    (∀ a b : Machine, a.stack = b.stack → f a = f b) →
    (∀ machine, P α (f machine)) → P α (get >>= f)

/-- Does the word read its target from the running code? -/
def Builtin.Steers (b : Builtin) : Prop := b = .branch ∨ b = .jump

/-- Does the word look at the stack as a whole? -/
def Builtin.Surveys (b : Builtin) : Prop := b = .depth ∨ b = .printStack

namespace HoldsOfLocalSteps

variable {P : ∀ α : Type, Exec α → Prop}

theorem popAs (h : HoldsOfLocalSteps P) {α : Type} (kind : Kind) (get : Value → Option α) :
    P α (popAs kind get) := by
  refine h.bind h.pop fun value => ?_
  unfold Value.expect
  cases get value with
  | none => exact h.mismatch kind value
  | some a => exact h.pure a

theorem popInt (h : HoldsOfLocalSteps P) : P Int64 popInt := h.popAs .int Value.int?

theorem popBool (h : HoldsOfLocalSteps P) : P Bool popBool := h.popAs .bool Value.bool?

theorem popDirection (h : HoldsOfLocalSteps P) : P Direction popDirection :=
  h.popAs .direction Value.direction?

theorem pushExact (h : HoldsOfLocalSteps P) (n : Int) : P Unit (pushExact n) := by
  unfold Tabletop.pushExact
  cases Text.toInt64? n with
  | none => exact h.fail .integerOverflow
  | some n => exact h.push (.int n)

theorem arithmetic (h : HoldsOfLocalSteps P) (operation : Int → Int → Int) :
    P Unit (arithmetic operation) :=
  h.bind h.popInt fun _ => h.bind h.popInt fun _ => h.pushExact _

theorem comparison (h : HoldsOfLocalSteps P) (holds : Int64 → Int64 → Bool) :
    P Unit (comparison holds) :=
  h.bind h.popInt fun _ => h.bind h.popInt fun _ => h.push _

end HoldsOfLocalSteps

/-- What holds of the local steps holds of every built-in word that neither steers the run nor looks
at the stack as a whole. -/
theorem Builtin.run_of_local_steps {P : ∀ α : Type, Exec α → Prop} (h : HoldsOfLocalSteps P)
    {b : Builtin} (hsteers : ¬ b.Steers) (hsurveys : ¬ b.Surveys) : P Unit b.run := by
  cases b with
  | branch => exact absurd (.inl rfl) hsteers
  | jump => exact absurd (.inr rfl) hsteers
  | add | subtract | multiply => exact h.arithmetic _
  | divide =>
    refine h.bind h.popInt fun b => h.bind h.popInt fun a => ?_
    split
    · exact h.fail .divisionByZero
    · exact h.pushExact _
  | greater | less => exact h.comparison _
  | equal => exact h.bind h.pop fun _ => h.bind h.pop fun _ => h.push _
  | not => exact h.bind h.popBool fun _ => h.push _
  | dup => exact h.bind h.pop fun _ => h.bind (h.push _) fun _ => h.push _
  | drop => exact h.bind h.pop fun _ => h.pure _
  | swap =>
    refine h.bind h.pop fun b => h.bind h.pop fun a => ?_
    exact h.bind (h.push b) fun _ => h.push a
  | copyOver =>
    refine h.bind h.pop fun b => h.bind h.pop fun a => ?_
    exact h.bind (h.push a) fun _ => h.bind (h.push b) fun _ => h.push a
  | depth => exact absurd (.inl rfl) hsurveys
  | print => exact h.bind h.pop fun _ => h.print _
  | printStack => exact absurd (.inr rfl) hsurveys
  | printWords => exact h.byState (fun _ _ hwords _ => by simp only [hwords]) fun _ => h.print _
  | place =>
    refine h.bind h.popDirection fun facing => h.bind h.popInt fun y => h.bind h.popInt fun x => ?_
    exact h.bind (h.order _) fun _ => h.pure _
  | move | left | right => exact h.bind (h.order _) fun _ => h.pure _
  | report =>
    refine h.byState (fun _ _ _ hrobot => by simp only [hrobot]) fun machine => ?_
    cases machine.robot.pose with
    | none => exact h.unreported
    | some pose => exact h.print _

/-- What holds of the steps holds of every built-in word that does not steer the run. -/
theorem Builtin.run_of_steps {P : ∀ α : Type, Exec α → Prop} (h : HoldsOfSteps P) {b : Builtin}
    (hsteers : ¬ b.Steers) : P Unit b.run := by
  by_cases hsurveys : b.Surveys
  · obtain rfl | rfl := hsurveys
    · exact h.byStack (fun _ _ hstack => by simp only [hstack]) fun _ => h.push _
    · exact h.byStack (fun _ _ hstack => by simp only [hstack]) fun _ => h.print _
  · exact Builtin.run_of_local_steps h.toHoldsOfLocalSteps hsteers hsurveys

end Tabletop
