import Tabletop.Machine

/-!
# What the built-in words do

Words take their arguments off the stack, the last one first, and leave their results there.
-/

namespace Tabletop

open Exec

/-- Push an integer, unless it takes more than 64 bits. -/
def pushExact (n : Int) : Exec Unit :=
  match Text.toInt64? n with
  | some n => push (.int n)
  | none => fail .integerOverflow

/-- Replace two integers by the exact result of an operation on them. -/
def arithmetic (operation : Int → Int → Int) : Exec Unit := do
  let b ← popInt
  let a ← popInt
  pushExact (operation a.toInt b.toInt)

/-- Replace two integers by the result of a comparison. -/
def comparison (holds : Int64 → Int64 → Bool) : Exec Unit := do
  let b ← popInt
  let a ← popInt
  push (.bool (holds a b))

/-- The stack on one line: the number of values and then the values from the bottom up. -/
def Stack.text (stack : Stack) : String :=
  "<" ++ Text.showNat stack.size ++ "> " ++ " ".intercalate (stack.toList.map Value.text)

/-- Push the length `n`, whose 64 bits are taken for a signed integer. -/
def Exec.pushSize (n : UInt64) : Exec Unit := push (.int n.toInt64)

def Builtin.run : Builtin → Exec Unit
  | branch => do
    let target ← readTarget
    let flag ← popBool
    if !flag then jumpTo target
  | jump => do
    let target ← readTarget
    jumpTo target
  | add => arithmetic (· + ·)
  | subtract => arithmetic (· - ·)
  | multiply => arithmetic (· * ·)
  | divide => do
    let b ← popInt
    let a ← popInt
    if b = 0 then fail .divisionByZero
    else pushExact (Int.tdiv a.toInt b.toInt)
  | greater => comparison fun a b => a > b
  | less => comparison fun a b => a < b
  | equal => do
    let b ← pop
    let a ← pop
    push (.bool (a = b))
  | not => do
    let flag ← popBool
    push (.bool !flag)
  | dup => do
    let value ← pop
    push value
    push value
  | drop => do
    let _ ← pop
  | swap => do
    let b ← pop
    let a ← pop
    push b
    push a
  | copyOver => do
    let b ← pop
    let a ← pop
    push a
    push b
    push a
  | depth => do
    pushSize (UInt64.ofNat (← get).stack.size)
  | print => do
    let value ← pop
    Exec.print (value.text ++ "\n")
  | printStack => do
    Exec.print ((← get).stack.text ++ "\n")
  | printWords => do
    Exec.print (← get).dictionary.listing
  | place => do
    let facing ← popDirection
    let y ← popInt
    let x ← popInt
    let _ ← order (.place x y facing)
  | move => do
    let _ ← order .move
  | left => do
    let _ ← order .left
  | right => do
    let _ ← order .right
  | report => do
    match (← get).robot.pose with
    | some pose => Exec.print (pose.text ++ "\n")
    | none => record .unreported

end Tabletop
