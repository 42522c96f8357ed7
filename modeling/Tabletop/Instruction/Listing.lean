import Tabletop.Instruction.Decode

/-!
# Listings

Code in readable form: a line for each instruction, with its offset in front.
-/

namespace Tabletop.Instruction

/-- An instruction in words. -/
def text : Instruction → String
  | push literal => "PUSH_VAL   " ++ literal.kind.name ++ " " ++ literal.text
  | exec name => "EXEC_WORD  " ++ name
  | branch target => "EXEC_WORD  " ++ branchName ++ " -> " ++ Text.showOffset target.toNat
  | jump target => "EXEC_WORD  " ++ jumpName ++ " -> " ++ Text.showOffset target.toNat

/-- The line for an instruction at an offset. -/
def line : Nat × Instruction → String
  | (offset, instruction) => Text.showOffset offset ++ "  " ++ instruction.text ++ "\n"

/-- The listing of a piece of code. -/
def listing (code : Code) : Except DecodeError String := do
  let instructions ← decode code
  return String.join (instructions.map line)

end Tabletop.Instruction
