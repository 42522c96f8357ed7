import Tabletop.Instruction

/-!
# Decoding

Reading instructions back from their bytes. A word's name is read apart from the target that may
follow it, because at run time it is the word itself that reads its target.
-/

namespace Tabletop.Instruction

open Cursor (Read here next readUntil)

/-- Read the tag and the payload of a literal. -/
def readLiteral : Read UInt8 Literal := do
  let position ← here
  let tag ← next
  match Kind.ofTag? tag with
  | none => throw (.unknownTag tag position)
  | some .int => return .int (← next)
  | some .direction =>
    match Direction.ofByte? (← next) with
    | some d => return .direction d
    | none => throw (.invalidPayload .direction position)
  | some .bool =>
    match ← next with
    | 0 => return .bool false
    | 1 => return .bool true
    | _ => throw (.invalidPayload .bool position)
  | some .string =>
    match Text.ofUtf8? (← readUntil terminator) with
    | some s => return .string s
    | none => throw (.invalidPayload .string position)

/-- Read the name of a word, which has to be ASCII. -/
def readName : Read UInt8 String := do
  let position ← here
  let bytes ← readUntil terminator
  if Text.isAscii bytes then
    match Text.ofUtf8? bytes with
    | some name => return name
    | none => throw (.invalidWordName position)
  else
    throw (.invalidWordName position)

/-- Read the two bytes of a target. -/
def readTarget : Read UInt8 UInt16 := do
  let high ← next
  let low ← next
  return targetOfBytes high low

/-- An instruction up to its target: what the opcode works on. -/
inductive Head where
  | push (literal : Literal)
  | exec (name : String)
deriving DecidableEq, Repr

/-- Read an opcode and what it works on. -/
def readHead : Read UInt8 Head := do
  let position ← here
  let byte ← next
  match Opcode.ofByte? byte with
  | some .push => return .push (← readLiteral)
  | some .exec => return .exec (← readName)
  | none => throw (.unknownOpcode byte position)

/-- Read a whole instruction. -/
def read : Read UInt8 Instruction := do
  match ← readHead with
  | .push literal => return .push literal
  | .exec name =>
    if name = branchName then return .branch (← readTarget)
    else if name = jumpName then return .jump (← readTarget)
    else return .exec name

/-- Read at most `fuel` instructions, each with its offset, up to the end of the code. Those already
read are in `done`, newest first. -/
def readAll : Nat → List (Nat × Instruction) → Cursor UInt8 →
    Except DecodeError (List (Nat × Instruction))
  | 0, done, _ => .ok done.reverse
  | fuel + 1, done, cursor =>
    if cursor.hasNext then
      match read cursor with
      | .ok instruction cursor' => readAll fuel ((cursor.position, instruction) :: done) cursor'
      | .error e _ => .error e
    else .ok done.reverse

/-- The instructions of a piece of code, each with its offset. Every instruction takes at least one
byte, so there are no more of them than bytes. -/
def decode (code : Code) : Except DecodeError (List (Nat × Instruction)) :=
  readAll code.length [] (.start code)

end Tabletop.Instruction
