import Tabletop.Instruction

/-!
# Programs

A program is a list of items: literals, words and conditionals, whose bodies are programs again. Its
instructions are those of its items in order. A conditional branches over its first body, and,
if it has a second one, jumps from the end of the first over the second.
-/

namespace Tabletop

/-- What a program is made of apart from conditionals. -/
inductive Leaf where
  | literal (literal : Literal)
  | word (name : String)
deriving DecidableEq, Repr

/-- The one instruction that carries out a leaf. -/
def Leaf.instruction : Leaf → Instruction
  | literal l => .push l
  | word name => .exec name

inductive Item where
  | leaf (leaf : Leaf)
  | ifThen (body : List Item)
  | ifElse (yes no : List Item)

abbrev Program := List Item

/-- The bytes of the branch in front of a conditional. -/
def branchSize : Nat := (Instruction.branch 0).size

/-- The bytes of the jump between the two bodies of a conditional. -/
def jumpSize : Nat := (Instruction.jump 0).size

/-! ## Instructions -/

/-- Instructions put down so far, newest first, and the offset of what comes next. -/
structure Assembly where
  instructions : List Instruction
  offset : Nat

/-- Put down one more instruction. -/
def Assembly.add (assembly : Assembly) (instruction : Instruction) : Assembly :=
  ⟨instruction :: assembly.instructions, assembly.offset + instruction.size⟩

mutual

/-- Put down the instructions of an item. A body is put down apart, which shows where it ends, and
then behind the instruction that leads there. -/
def Item.assemble (assembly : Assembly) : Item → Assembly
  | .leaf leaf => assembly.add leaf.instruction
  | .ifThen body =>
    let inner := Program.assemble ⟨[], assembly.offset + branchSize⟩ body
    let branch := Instruction.branch (UInt16.ofNat inner.offset)
    ⟨inner.instructions ++ branch :: assembly.instructions, inner.offset⟩
  | .ifElse yes no =>
    let first := Program.assemble ⟨[], assembly.offset + branchSize⟩ yes
    let second := Program.assemble ⟨[], first.offset + jumpSize⟩ no
    let branch := Instruction.branch (UInt16.ofNat (first.offset + jumpSize))
    let jump := Instruction.jump (UInt16.ofNat second.offset)
    ⟨second.instructions ++ jump :: first.instructions ++ branch :: assembly.instructions,
      second.offset⟩

/-- Put down the instructions of a program. -/
def Program.assemble (assembly : Assembly) : List Item → Assembly
  | [] => assembly
  | item :: items => Program.assemble (item.assemble assembly) items

end

/-- The instructions of a program that starts at offset 0. -/
def Program.instructions (program : Program) : List Instruction :=
  (Program.assemble ⟨[], 0⟩ program).instructions.reverse

/-- The code of a program. -/
def Program.code (program : Program) : Code := Instruction.encodeAll program.instructions

end Tabletop
