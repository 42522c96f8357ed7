import Tabletop.Error
import Tabletop.Robot

/-!
# The journal

What happens on the way from a text to the end of its run, for those who want to follow it. The
journal has no effect on anything else.
-/

namespace Tabletop

/-- How fine a detail an event is. -/
inductive Level where
  | debug
  | trace
deriving DecidableEq, Repr

def Level.ofName? : String → Option Level
  | "debug" => some .debug
  | "trace" => some .trace
  | _ => none

/-- Are events of level `a` shown to those who ask for level `b`? -/
def Level.isShownAt : Level → Level → Bool
  | trace, debug => false
  | _, _ => true

inductive Event where
  /-- The table was set up. -/
  | tabled (table : Table)
  /-- A text was cut into tokens. -/
  | scanned (path : String) (tokens : Nat)
  | compiled (tokens bytes : Nat)
  /-- A run begins. -/
  | started (bytes : Nat)
  | pushed (offset : Nat) (value : Value)
  | called (offset : Nat) (word : String)
  | jumped (target : Nat)
  /-- A run reached its end. -/
  | finished (peak : Nat)
  | stopped (error : Error)
  | refused (refusal : Refusal)
  /-- A report was asked of a robot that is not there. -/
  | unreported
deriving DecidableEq, Repr

namespace Event

def level : Event → Level
  | pushed _ _ => .trace
  | called _ _ => .trace
  | jumped _ => .trace
  | _ => .debug

def message : Event → String
  | tabled table =>
    "Table is " ++ Text.showInt table.width.toInt ++ "x" ++ Text.showInt table.height.toInt ++ "."
  | scanned path tokens => "Tokenized " ++ path ++ " into " ++ Text.showNat tokens ++ " tokens."
  | compiled tokens bytes =>
    "Compiled " ++ Text.showNat tokens ++ " tokens into " ++ Text.showNat bytes ++ " bytes."
  | started bytes => "Running " ++ Text.showNat bytes ++ " bytes of code."
  | pushed offset value => Text.showOffset offset ++ "  push " ++ value.describe
  | called offset word => Text.showOffset offset ++ "  exec " ++ word
  | jumped target => "jump to " ++ Text.showOffset target
  | finished peak =>
    "Program finished, the stack peaked at " ++ Text.showNat peak ++ " values."
  | stopped error => "Program stopped: " ++ error.message
  | refused refusal => refusal.message
  | unreported => "Ignoring REPORT, the robot has not been placed."

end Event

/-- Events, newest first. -/
abbrev Journal := List Event

/-! ## Steps that leave an entry -/

/-- A computation that may fail and writes a journal. -/
abbrev Logged := EStateM Error Journal

def Logged.record (event : Event) : Logged Unit := modify (event :: ·)

/-- Cut a text into tokens. -/
def scanLogged (path source : String) : Logged (List Token) := do
  match Token.scan path source with
  | .ok tokens =>
    Logged.record (.scanned path tokens.length)
    return tokens
  | .error e => throw (.scan e)

/-- Compile tokens. -/
def compileLogged (tokens : List Token) : Logged Code := do
  match compile tokens with
  | .ok code =>
    Logged.record (.compiled tokens.length code.length)
    return code
  | .error e => throw (.compile e)

/-- From a text to its code. -/
def loadLogged (path source : String) : Logged Code := do
  compileLogged (← scanLogged path source)

/-- Give a robot an order. It is refused with an entry, and then the robot is as before. -/
def Robot.follow (robot : Robot) (order : Order) : Bool × Robot × Journal :=
  match robot.obey order with
  | .ok robot' => (true, robot', [])
  | .error refusal => (false, robot, [.refused refusal])

end Tabletop
