import Tabletop.Instruction.Listing
import Tabletop.Logger
import Tabletop.Machine.Run

/-!
# The command line

A script given by name is run as one program. Without one, every line of the input is a program of
its own; the robot stays where the line before left it, and a line that fails is reported and
skipped. With `--bytecode` the listing of each program is printed before it runs. What happens is
told to a logger, whose lines go to the error output together with the reports of failures.
-/

namespace Tabletop

/-! ## Arguments -/

/-- What the arguments ask for. -/
structure Arguments where
  showCode : Bool
  script : Option String
deriving DecidableEq, Repr

namespace Arguments

def none : Arguments := ⟨false, .none⟩

/-- Take one argument. Of those that are no option, the first names the script. -/
def step (arguments : Arguments) (argument : String) : Except ConfigError Arguments :=
  if argument = "--bytecode" then .ok { arguments with showCode := true }
  else if arguments.script.isNone then .ok { arguments with script := some argument }
  else .error (.unexpectedArgument argument)

def parse (arguments : List String) : Except ConfigError Arguments :=
  arguments.foldlM step none

end Arguments

/-! ## Programs -/

def Stop.message : Stop → String
  | failed error => error.message
  | outOfFuel => "out of fuel"

/-- A machine that knows all built-in words and prints without limit. -/
def Machine.standard (table : Table) : Machine :=
  .start (.ofGroups Builtin.Group.all) table (.empty [])

/-- What the logger is told of what has happened to the machine. -/
def Machine.told (machine : Machine) : List Notice := machine.journal.reverse.map .logged

/-- The machine with a new journal. -/
def Machine.turnPage (machine : Machine) : Machine := { machine with journal := [] }

/-- Print the listing of a text's code. -/
def Exec.printListing (path source : String) : Exec Unit := do
  let code ← ofLogged (loadLogged path source)
  match Instruction.listing code with
  | .ok listing => print listing
  | .error e => throw (.failed (.decode e))

/-- Run a program, after its listing if that is asked for. -/
def Exec.runProgram (showCode : Bool) (path source : String) : Exec Unit := do
  if showCode then printListing path source
  runSource (invoke deepestCall) path source

/-! ## Lines of input -/

/-- Put a byte in front of lines. A newline ends the line that it closes. -/
def consByte (byte : UInt8) (lines : List (List UInt8)) : List (List UInt8) :=
  if byte = 10 then [] :: lines
  else
    match lines with
    | [] => [[byte]]
    | line :: lines => (byte :: line) :: lines

/-- The lines of the input. What follows the last newline is a line unless it is empty. -/
def splitLines (input : List UInt8) : List (List UInt8) := input.foldr consByte []

/-- The path of the `n`th line of the input. -/
def linePath (n : Nat) : String := "<stdin:" ++ Text.showNat n ++ ">"

/-- The complaint about the `n`th line of the input. -/
def complaint (n : Nat) (message : String) : String := linePath n ++ ": " ++ message ++ "\n"

/-- The program on a line: its text without the carriage returns at its end, if there is more to it
than blanks. -/
def lineProgram? (line : String) : Option String :=
  let text := Text.dropEndWhile (· = '\r') line.toList
  if Text.allBlank text then none else some (String.ofList text)

/-- Run the `n`th line of the input. Gives what there is to notice about it and the machine
afterwards. -/
def runLine (showCode : Bool) (n : Nat) (bytes : List UInt8) (machine : Machine) :
    List Notice × Machine :=
  match Text.ofUtf8? bytes with
  | none => ([.reported (complaint n "line is not valid UTF-8")], machine)
  | some line =>
    match lineProgram? line with
    | none => ([], machine)
    | some source =>
      match Exec.runProgram showCode (linePath n) source machine with
      | .ok () after => (after.told, after.turnPage)
      | .error stop after => (after.told ++ [.reported (complaint n stop.message)], after.turnPage)

/-- Run the lines from the `n`th on. What there was to notice before is given newest first. -/
def runLines (showCode : Bool) (n : Nat) (noticed : List Notice) (machine : Machine) :
    List (List UInt8) → List Notice × Machine
  | [] => (noticed.reverse, machine)
  | line :: lines =>
    let (notices, after) := runLine showCode n line machine
    runLines showCode (n + 1) (notices.reverseAux noticed) after lines

/-! ## The whole -/

/-- What a call of the command comes to, apart from how its logger words it. -/
structure Transcript where
  exitCode : UInt32
  stdout : List UInt8
  notices : List Notice

/-- The report of a call that fails. -/
def failureReport (message : String) : String := "Error: " ++ message ++ "\n"

/-- A call that fails before anything happens. -/
def Transcript.failure (message : String) : Transcript :=
  ⟨1, [], [.reported (failureReport message)]⟩

/-- Run a script whose bytes are given, or the reason why they cannot be read. -/
def runScript (table : Table) (showCode : Bool) (path : String)
    (contents : Except String (List UInt8)) : Transcript :=
  match contents with
  | .error reason => .failure (RuntimeError.io reason).message
  | .ok bytes =>
    match Text.ofUtf8? bytes with
    | none => .failure (RuntimeError.io "stream did not contain valid UTF-8").message
    | some source =>
      match Exec.runProgram showCode path source (.standard table) with
      | .ok () after => ⟨0, after.output.bytes, after.told⟩
      | .error stop after =>
        ⟨1, after.output.bytes, after.told ++ [.reported (failureReport stop.message)]⟩

/-- Run every line of the input. -/
def runInput (table : Table) (showCode : Bool) (input : List UInt8) : Transcript :=
  let (notices, after) := runLines showCode 1 [] (.standard table) (splitLines input)
  ⟨0, after.output.bytes, notices⟩

/-- Run the script, or the input if there is none. -/
def runArguments (arguments : Arguments) (table : Table)
    (files : String → Except String (List UInt8)) (input : List UInt8) : Transcript :=
  match arguments.script with
  | some path => runScript table arguments.showCode path (files path)
  | none => runInput table arguments.showCode input

/-- Call the command with arguments, settings, the files there are and an input. -/
def transcribe (arguments : List String) (settings : String → Option String)
    (files : String → Except String (List UInt8)) (input : List UInt8) : Transcript :=
  match Arguments.parse arguments, Table.ofSettings settings with
  | .error e, _ => .failure e.message
  | .ok _, .error e => .failure e.message
  | .ok arguments, .ok table =>
    let transcript := runArguments arguments table files input
    { transcript with notices := .logged (.tabled table) :: transcript.notices }

/-- What a call of the command leaves behind. -/
structure Report where
  exitCode : UInt32
  stdout : List UInt8
  stderr : String

def Transcript.report (transcript : Transcript) (logger : Logger) : Report :=
  ⟨transcript.exitCode, transcript.stdout, logger.text transcript.notices⟩

/-- Call the command with the logger that the settings make. -/
def runCommand (logging : Logging) (arguments : List String) (settings : String → Option String)
    (files : String → Except String (List UInt8)) (input : List UInt8) : Report :=
  (transcribe arguments settings files input).report (logging settings)

end Tabletop
