import Tabletop.Program.Compile
import Tabletop.Table
import Tabletop.Token.Scan

/-!
# Errors

Everything that can stop a program, from its text to its run. An error is its cause; its wording is
`Error.message`.
-/

namespace Tabletop

/-- Why a word gives up. -/
inductive Fault where
  | divisionByZero
  | integerOverflow
  /-- A reason that a word gives in its own words. -/
  | reported (message : String)
deriving DecidableEq, Repr

def Fault.message : Fault → String
  | divisionByZero => "Division by zero."
  | integerOverflow => "Integer overflow."
  | reported message => message

/-- Why a run stops. -/
inductive RuntimeError where
  | unknownWord (name : String)
  | stackUnderflow
  | typeMismatch (expected : Kind) (found : Value)
  /-- A word gives up. The position is that of the byte that would be read next. -/
  | wordFailed (word : String) (position : Nat) (fault : Fault)
  | noActiveProgram
  /-- Something outside cannot be read or written. -/
  | io (message : String)
deriving DecidableEq, Repr

def RuntimeError.message : RuntimeError → String
  | unknownWord name => "unknown word " ++ name
  | stackUnderflow => "empty stack"
  | typeMismatch expected found =>
    "expected a " ++ expected.name ++ " value, found " ++ found.describe
  | wordFailed word position fault =>
    word ++ " at offset " ++ Text.showNat position ++ ": " ++ fault.message
  | noActiveProgram => "no program is running"
  | io message => "I/O error: " ++ message

inductive Error where
  | scan (error : ScanError)
  | compile (error : CompileError)
  | decode (error : DecodeError)
  | runtime (error : RuntimeError)
  | config (error : ConfigError)
deriving DecidableEq, Repr

def Error.message : Error → String
  | scan error => error.message
  | compile error => error.message
  | decode error => error.message
  | runtime error => error.message
  | config error => error.message

/-- Take a value as one of the given kind, where `get` finds it if it is. -/
def Value.expect {α : Type} (value : Value) (kind : Kind) (get : Value → Option α) :
    Except RuntimeError α :=
  match get value with
  | some a => .ok a
  | none => .error (.typeMismatch kind value)

end Tabletop
