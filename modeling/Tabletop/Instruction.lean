import Tabletop.Cursor
import Tabletop.Text.Utf8

/-!
# Instructions

A program runs as a list of instructions, stored as bytes. An instruction is an opcode and what it
works on:

* a literal is its tag and its payload, where a text ends with a zero byte;
* a word is its name, ended by a zero byte;
* the two words that steer the run, `IF` and `JMP`, are followed by the offset they lead to, two
  bytes with the high one first.
-/

namespace Tabletop

/-- Code is the bytes of a list of instructions. -/
abbrev Code := List UInt8

/-- Ends the name of a word and the payload of a text. -/
def terminator : UInt8 := 0

/-- The word that goes on at its target if the flag on top of the stack is false. -/
def branchName : String := "IF"

/-- The word that goes on at its target. -/
def jumpName : String := "JMP"

/-- The farthest offset that a target can name. -/
def farthestTarget : Nat := 65535

inductive Opcode where
  | push
  | exec
deriving DecidableEq, Repr

namespace Opcode

def toByte : Opcode → UInt8
  | push => 0
  | exec => 1

def ofByte? (byte : UInt8) : Option Opcode := [push, exec].find? (·.toByte == byte)

@[simp] theorem ofByte?_toByte (op : Opcode) : ofByte? op.toByte = some op := by
  cases op <;> rfl

end Opcode

/-! ## Literals -/

/-- A value that can be written into code. -/
inductive Literal where
  | int (n : UInt8)
  | direction (d : Direction)
  | bool (b : Bool)
  | string (s : String)
deriving DecidableEq, Repr

namespace Literal

def value : Literal → Value
  | int n => .int (Int64.ofNat n.toNat)
  | direction d => .direction d
  | bool b => .bool b
  | string s => .string s

def kind : Literal → Kind
  | int _ => .int
  | direction _ => .direction
  | bool _ => .bool
  | string _ => .string

def payload : Literal → Code
  | int n => [n]
  | direction d => [d.toByte]
  | bool b => [if b then 1 else 0]
  | string s => Text.utf8 s ++ [terminator]

/-- The tag and the payload. -/
def encode (literal : Literal) : Code := literal.kind.tag :: literal.payload

/-- How many bytes a literal takes. -/
def size : Literal → Nat
  | string s => s.utf8ByteSize + 2
  | _ => 2

/-- A literal as it is listed: the way it is printed, but a text is quoted. -/
def text : Literal → String
  | string s => Text.quoted s
  | literal => literal.value.text

@[simp] theorem kind_value (literal : Literal) : literal.value.kind = literal.kind := by
  cases literal <;> rfl

@[simp] theorem length_encode (literal : Literal) : literal.encode.length = literal.size := by
  cases literal <;> simp [encode, payload, size]

end Literal

/-! ## Instructions and their bytes -/

inductive Instruction where
  /-- Push a literal. -/
  | push (literal : Literal)
  /-- Run a word other than the two that carry a target. -/
  | exec (name : String)
  /-- Take a flag off the stack and go on at `target` if it is false. -/
  | branch (target : UInt16)
  /-- Go on at `target`. -/
  | jump (target : UInt16)
deriving DecidableEq, Repr

/-- The two bytes of a target, the high one first. -/
def encodeTarget (target : UInt16) : Code := [(target >>> 8).toUInt8, target.toUInt8]

/-- The target made of a high and a low byte. -/
def targetOfBytes (high low : UInt8) : UInt16 := high.toUInt16 <<< 8 ||| low.toUInt16

/-- The opcode and the name of a word. -/
def encodeCall (name : String) : Code := Opcode.exec.toByte :: Text.utf8 name ++ [terminator]

namespace Instruction

def encode : Instruction → Code
  | push literal => Opcode.push.toByte :: literal.encode
  | exec name => encodeCall name
  | branch target => encodeCall branchName ++ encodeTarget target
  | jump target => encodeCall jumpName ++ encodeTarget target

/-- The bytes of instructions that follow one another. -/
def encodeAll (instructions : List Instruction) : Code := instructions.flatMap encode

/-- How many bytes an instruction takes. -/
def size : Instruction → Nat
  | push literal => literal.size + 1
  | exec name => name.utf8ByteSize + 2
  | branch _ => 6
  | jump _ => 7

@[simp] theorem length_encode (instruction : Instruction) :
    instruction.encode.length = instruction.size := by
  cases instruction with
  | push literal => simp [encode, size]
  | exec name => simp [encode, encodeCall, size]
  | branch target => rfl
  | jump target => rfl

end Instruction

end Tabletop
