import Tabletop.Dictionary
import Tabletop.Instruction.Decode
import Tabletop.Journal
import Tabletop.Output
import Tabletop.Stack

/-!
# The machine

The state of a session: the stack, the known words, the code that is running and the word that is
running in it, the robot, what has been printed, and the journal. What a machine does is an `Exec`:
it changes the state, also if it fails.
-/

namespace Tabletop

structure Machine where
  stack : Stack
  dictionary : Dictionary
  /-- The running code, if there is any. -/
  code : Option (Cursor UInt8)
  /-- The running word, if there is one. -/
  word : Option String
  robot : Robot
  output : Output
  journal : Journal

/-- A machine at rest that knows the words of a dictionary. -/
def Machine.start (dictionary : Dictionary) (table : Table) (output : Output) : Machine where
  stack := .empty
  dictionary := dictionary
  code := none
  word := none
  robot := .unplaced table
  output := output
  journal := []

/-- Why a machine stops before it is done: because of an error, or because it has used up the steps
or the depth of calls that it was given. -/
inductive Stop where
  | failed (error : Error)
  | outOfFuel

abbrev Exec := EStateM Stop Machine

namespace Exec

variable {α : Type}

/-- Stop with an error of the run. -/
def raise (error : RuntimeError) : Exec α := throw (.failed (.runtime error))

/-- Take the outcome of a check. -/
def ofExcept : Except RuntimeError α → Exec α
  | .ok a => pure a
  | .error e => raise e

/-- Write an entry into the journal. -/
def record (event : Event) : Exec Unit :=
  modify fun machine => { machine with journal := event :: machine.journal }

/-- Let a computation write into the machine's journal. -/
def ofLogged (logged : Logged α) : Exec α := fun machine =>
  match logged machine.journal with
  | .ok a journal => .ok a { machine with journal }
  | .error e journal => .error (.failed e) { machine with journal }

/-! ## The stack -/

def push (value : Value) : Exec Unit :=
  modify fun machine => { machine with stack := machine.stack.push value }

def pop : Exec Value := fun machine =>
  match machine.stack.pop? with
  | some (value, stack) => .ok value { machine with stack }
  | none => .error (.failed (.runtime .stackUnderflow)) machine

/-- Take a value of the given kind off the stack. A value of another kind is lost. -/
def popAs (kind : Kind) (get : Value → Option α) : Exec α := do
  let value ← pop
  ofExcept (value.expect kind get)

def popInt : Exec Int64 := popAs .int Value.int?

def popBool : Exec Bool := popAs .bool Value.bool?

def popDirection : Exec Direction := popAs .direction Value.direction?

/-! ## The running code -/

/-- Where the running code is read next. -/
def position? : Exec (Option Nat) := do
  return (← get).code.map Cursor.position

/-- Read from the running code. -/
def readCode (read : Cursor.Read UInt8 α) : Exec α := fun machine =>
  match machine.code with
  | none => .error (.failed (.runtime .noActiveProgram)) machine
  | some cursor =>
    match read cursor with
    | .ok a cursor' => .ok a { machine with code := some cursor' }
    | .error e cursor' => .error (.failed (.decode e)) { machine with code := some cursor' }

/-- Is there more of the running code to read? -/
def hasCode : Exec Bool := readCode fun cursor => .ok cursor.hasNext cursor

/-- Read a target from the running code. -/
def readTarget : Exec Nat := do
  return (← readCode Instruction.readTarget).toNat

/-- Go on at the target. -/
def jumpTo (target : Nat) : Exec Unit := do
  record (.jumped target)
  readCode (Cursor.advanceTo target)

/-- Give up, in the name of the running word. -/
def fail (fault : Fault) : Exec α := do
  let word := (← get).word.getD "<none>"
  let position := (← position?).getD 0
  raise (.wordFailed word position fault)

/-! ## The world outside -/

/-- Print a text. If the output does not take all of it, what it takes is printed. -/
def print (text : String) : Exec Unit := fun machine =>
  let bytes := Text.utf8 text
  let machine' := { machine with output := machine.output.append bytes }
  match Limit.blocked? bytes machine.output.limits with
  | none => .ok () machine'
  | some message => .error (.failed (.runtime (.io message))) machine'

/-- Give the robot an order. Tells whether it was followed. -/
def order (order : Order) : Exec Bool := fun machine =>
  let (done, robot, entries) := machine.robot.follow order
  .ok done { machine with robot, journal := entries ++ machine.journal }

end Exec

end Tabletop
