import Tabletop.Proofs.Layout
import Tabletop.Proofs.Loop

/-!
# What a program means

The meaning of a program by recursion on its items, without regard to how it is run as code: a
literal is pushed, a word does what it is built in for, and a conditional takes a flag off the stack
and means one of its bodies. Code only comes in where a word gives up, since that error tells where
the code of the word ends. For this, meanings are given at an offset.

What a built-in word does to the world is the same whether it is called from running code or not
(`Builtin.run_agrees`).
-/

namespace Tabletop

/-- What programs work on. -/
structure World where
  stack : Stack
  robot : Robot
  output : Output

def Machine.world (machine : Machine) : World := ⟨machine.stack, machine.robot, machine.output⟩

/-- A machine that knows the built-in words and runs nothing. -/
def World.machine (world : World) : Machine where
  stack := world.stack
  dictionary := .ofGroups Builtin.Group.all
  code := none
  word := none
  robot := world.robot
  output := world.output
  journal := []

/-- The same, but if a word gives up, then it is the given one, at the given position. -/
def Stop.blame (name : String) (position : Nat) : Stop → Stop
  | .failed (.runtime (.wordFailed _ _ fault)) =>
    .failed (.runtime (.wordFailed name position fault))
  | stop => stop

/-! ## Meanings -/

abbrev Eval := EStateM Stop World

namespace Eval

def push (value : Value) : Eval Unit :=
  modify fun world => { world with stack := world.stack.push value }

/-- Take a flag off the stack. A value of another kind is lost. -/
def popFlag : Eval Bool := fun world =>
  match world.stack.pop? with
  | none => .error (.failed (.runtime .stackUnderflow)) world
  | some (.bool flag, stack) => .ok flag { world with stack }
  | some (value, stack) =>
    .error (.failed (.runtime (.typeMismatch .bool value))) { world with stack }

/-- Do what the built-in word of the given name does, where its code ends at the position. -/
def word (name : String) (position : Nat) : Eval Unit := fun world =>
  match Builtin.ofName? name with
  | none => .error (.failed (.runtime (.unknownWord name))) world
  | some b =>
    match b.run world.machine with
    | .ok () after => .ok () after.world
    | .error stop after => .error (stop.blame name position) after.world

end Eval

mutual

/-- What an item at an offset means. -/
def Item.eval (offset : Nat) : Item → Eval Unit
  | .leaf (.literal literal) => Eval.push literal.value
  | .leaf (.word name) => Eval.word name (offset + (Instruction.exec name).size)
  | .ifThen body => do
    if ← Eval.popFlag then Program.eval (offset + branchSize) body
  | .ifElse yes no => do
    if ← Eval.popFlag then Program.eval (offset + branchSize) yes
    else Program.eval (offset + branchSize + Program.size yes + jumpSize) no

/-- What a program at an offset means. -/
def Program.eval (offset : Nat) : List Item → Eval Unit
  | [] => pure ()
  | item :: items => do
    item.eval offset
    Program.eval (offset + item.size) items

end

theorem Program.eval_append (offset : Nat) (front back : List Item) :
    Program.eval offset (front ++ back) =
      Program.eval offset front >>= fun _ => Program.eval (offset + Program.size front) back := by
  induction front generalizing offset with
  | nil => simp [Program.eval, Program.size]
  | cons item front ih => simp [Program.eval, Program.size, ih, Nat.add_assoc]

theorem Program.eval_singleton (offset : Nat) (item : Item) :
    Program.eval offset [item] = item.eval offset := by
  simp [Program.eval]

/-! ## Words with and without code -/

open Exec

/-- Two machines in the same world, the first of them running a word in code that is read next at
the given position, and the second running nothing. -/
structure Machine.Twins (name : String) (position : Nat) (coded plain : Machine) : Prop where
  world : coded.world = plain.world
  dictionary : coded.dictionary = plain.dictionary
  word : coded.word = some name
  position : coded.code.map Cursor.position = some position

/-- Two computations do the same, but that the first one knows which word it is and where. -/
abbrev AgreeAt {α : Type} (name : String) (position : Nat) (x y : Exec α) : Prop :=
  Agree (Machine.Twins name position) (fun e f => e = f.blame name position) x y

section Agreement

variable {name : String} {position : Nat} {coded plain : Machine}

theorem Machine.Twins.stack (h : coded.Twins name position plain) : coded.stack = plain.stack :=
  congrArg World.stack h.world

theorem Machine.Twins.robot (h : coded.Twins name position plain) : coded.robot = plain.robot :=
  congrArg World.robot h.world

theorem Machine.Twins.output (h : coded.Twins name position plain) : coded.output = plain.output :=
  congrArg World.output h.world

private theorem push_agrees (value : Value) : AgreeAt name position (push value) (push value) := by
  intro coded plain h
  refine ⟨rfl, ?_, h.dictionary, h.word, h.position⟩
  simp only [Machine.world, h.stack, h.robot, h.output]

private theorem record_agrees (event : Event) :
    AgreeAt name position (record event) (record event) :=
  fun _ _ h => ⟨rfl, h.world, h.dictionary, h.word, h.position⟩

private theorem order_agrees (o : Order) : AgreeAt name position (order o) (order o) := by
  intro coded plain h
  simp only [order, h.robot]
  refine ⟨trivial, ?_, h.dictionary, h.word, h.position⟩
  simp only [Machine.world, h.stack, h.output]

private theorem pop_agrees : AgreeAt name position pop pop := by
  intro coded plain h
  simp only [pop, h.stack]
  cases plain.stack.pop? with
  | none => exact ⟨rfl, h⟩
  | some top =>
    refine ⟨rfl, ?_, h.dictionary, h.word, h.position⟩
    simp only [Machine.world, h.robot, h.output]

private theorem print_agrees (text : String) :
    AgreeAt name position (Exec.print text) (Exec.print text) := by
  intro coded plain h
  have hworld : ({ coded with output := plain.output.append (Text.utf8 text) } : Machine).world =
      ({ plain with output := plain.output.append (Text.utf8 text) } : Machine).world := by
    simp only [Machine.world, h.stack, h.robot]
  simp only [Exec.print, h.output]
  cases Limit.blocked? (Text.utf8 text) plain.output.limits with
  | none => exact ⟨trivial, hworld, h.dictionary, h.word, h.position⟩
  | some message => exact ⟨rfl, hworld, h.dictionary, h.word, h.position⟩

/-- Only here does it matter which word is running and where. -/
theorem fail_agrees {α : Type} (fault : Fault) :
    AgreeAt name position (fail fault : Exec α) (fail fault) := by
  intro coded plain h
  refine ⟨?_, h⟩
  simp only [h.word, h.position]
  rfl

/-- The steps of built-in words do the same with and without code. -/
theorem agree_steps : HoldsOfSteps fun _ x => AgreeAt name position x x where
  pure := .pure
  bind := .bind
  byState hsame h := .get_bind fun coded plain htwins =>
    hsame coded plain htwins.dictionary htwins.robot ▸ h plain
  byStack hsame h := .get_bind fun coded plain htwins =>
    hsame coded plain htwins.stack ▸ h plain
  pop := pop_agrees
  push := push_agrees
  mismatch _ _ := .throw rfl
  fail := fail_agrees
  print := print_agrees
  unreported := record_agrees _
  order := order_agrees

/-- A built-in word that does not steer the run does the same with and without code. -/
theorem Builtin.run_agrees {b : Builtin} (h : ¬ b.Steers) : AgreeAt name position b.run b.run :=
  Builtin.run_of_steps agree_steps h

end Agreement

end Tabletop
