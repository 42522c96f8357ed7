import Tabletop.Program
import Tabletop.Proofs.Encoding

/-!
# Where the instructions of a program lie

A program is put down piece by piece, each body apart, to find out where it ends. Here its
instructions are given directly: `Item.size` is the number of bytes of an item, and `Item.layout`
its instructions at an offset, with targets computed from sizes. Both agree with the assembly
(`Program.instructions_eq_layout`).
-/

namespace Tabletop

mutual

/-- The bytes of an item. -/
def Item.size : Item → Nat
  | .leaf leaf => leaf.instruction.size
  | .ifThen body => branchSize + Program.size body
  | .ifElse yes no => branchSize + Program.size yes + jumpSize + Program.size no

/-- The bytes of a program. -/
def Program.size : List Item → Nat
  | [] => 0
  | item :: items => item.size + Program.size items

end

mutual

/-- The instructions of an item at an offset. -/
def Item.layout (offset : Nat) : Item → List Instruction
  | .leaf leaf => [leaf.instruction]
  | .ifThen body =>
    .branch (UInt16.ofNat (offset + branchSize + Program.size body)) ::
      Program.layout (offset + branchSize) body
  | .ifElse yes no =>
    let middle := offset + branchSize + Program.size yes + jumpSize
    .branch (UInt16.ofNat middle) :: (Program.layout (offset + branchSize) yes ++
      .jump (UInt16.ofNat (middle + Program.size no)) :: Program.layout middle no)

/-- The instructions of a program at an offset. -/
def Program.layout (offset : Nat) : List Item → List Instruction
  | [] => []
  | item :: items => item.layout offset ++ Program.layout (offset + item.size) items

end

theorem Program.layout_append (offset : Nat) (front back : List Item) :
    Program.layout offset (front ++ back) =
      Program.layout offset front ++ Program.layout (offset + Program.size front) back := by
  induction front generalizing offset with
  | nil => simp [Program.layout, Program.size]
  | cons item front ih =>
    simp [Program.layout, Program.size, ih, Nat.add_assoc]

/-! ## The assembly -/

mutual

private theorem Item.assemble_eq : ∀ (item : Item) (assembly : Assembly),
    item.assemble assembly =
      ⟨(item.layout assembly.offset).reverse ++ assembly.instructions, assembly.offset + item.size⟩
  | .leaf leaf, assembly => rfl
  | .ifThen body, assembly => by
    rw [Item.assemble, Program.assemble_eq body]
    simp [Item.layout, Item.size, Nat.add_assoc]
  | .ifElse yes no, assembly => by
    -- Each body was put down apart, behind nothing, so it is its layout and nothing else.
    rw [Item.assemble, Program.assemble_eq yes, Program.assemble_eq no]
    simp [Item.layout, Item.size, Nat.add_assoc]

private theorem Program.assemble_eq : ∀ (items : List Item) (assembly : Assembly),
    Program.assemble assembly items =
      ⟨(Program.layout assembly.offset items).reverse ++ assembly.instructions,
        assembly.offset + Program.size items⟩
  | [], assembly => rfl
  | item :: items, assembly => by
    rw [Program.assemble, Item.assemble_eq item, Program.assemble_eq items]
    simp [Program.layout, Program.size, Nat.add_assoc]

end

theorem Program.instructions_eq_layout (program : Program) :
    program.instructions = Program.layout 0 program := by
  simp [Program.instructions, Program.assemble_eq]

open Instruction

mutual

theorem Item.length_layout : ∀ (item : Item) (offset : Nat),
    (encodeAll (item.layout offset)).length = item.size
  | .leaf leaf, offset => by simp [Item.layout, Item.size]
  | .ifThen body, offset => by
    rw [Item.layout, encodeAll_cons, List.length_append, Program.length_layout body, length_encode]
    rfl
  | .ifElse yes no, offset => by
    rw [Item.layout, encodeAll_cons, encodeAll_append, encodeAll_cons, List.length_append,
      List.length_append, List.length_append, Program.length_layout yes, Program.length_layout no,
      length_encode, length_encode]
    simp only [Item.size, branchSize, jumpSize, Instruction.size]
    omega

theorem Program.length_layout : ∀ (items : List Item) (offset : Nat),
    (encodeAll (Program.layout offset items)).length = Program.size items
  | [], offset => rfl
  | item :: items, offset => by
    rw [Program.layout, encodeAll_append, List.length_append, Item.length_layout item,
      Program.length_layout items, Program.size]

end

theorem Program.length_code (program : Program) : program.code.length = Program.size program := by
  rw [Program.code, Program.instructions_eq_layout, Program.length_layout]

/-! ## Programs whose code can be read back -/

mutual

/-- Every leaf can be read back, and every target is in reach, for an item at an offset. -/
def Item.Sound (offset : Nat) : Item → Prop
  | .leaf leaf => leaf.instruction.Encodable
  | .ifThen body =>
    Program.Sound (offset + branchSize) body ∧
      offset + branchSize + Program.size body ≤ farthestTarget
  | .ifElse yes no =>
    let middle := offset + branchSize + Program.size yes + jumpSize
    Program.Sound (offset + branchSize) yes ∧ middle ≤ farthestTarget ∧
      Program.Sound middle no ∧ middle + Program.size no ≤ farthestTarget

/-- The same for a program. -/
def Program.Sound (offset : Nat) : List Item → Prop
  | [] => True
  | item :: items => item.Sound offset ∧ Program.Sound (offset + item.size) items

end

mutual

theorem Item.Sound.encodable : ∀ {item : Item} {offset : Nat}, item.Sound offset →
    ∀ i ∈ item.layout offset, i.Encodable
  | .leaf leaf, offset, h => by
    rw [Item.Sound] at h
    simpa [Item.layout] using h
  | .ifThen body, offset, h => by
    rw [Item.Sound] at h
    rw [Item.layout, List.forall_mem_cons]
    exact ⟨trivial, Program.Sound.encodable h.1⟩
  | .ifElse yes no, offset, h => by
    rw [Item.Sound] at h
    rw [Item.layout, List.forall_mem_cons, List.forall_mem_append, List.forall_mem_cons]
    exact ⟨trivial, Program.Sound.encodable h.1, trivial, Program.Sound.encodable h.2.2.1⟩

theorem Program.Sound.encodable : ∀ {items : List Item} {offset : Nat},
    Program.Sound offset items → ∀ i ∈ Program.layout offset items, i.Encodable
  | [], offset, _ => by simp [Program.layout]
  | item :: items, offset, h => by
    rw [Program.Sound] at h
    rw [Program.layout, List.forall_mem_append]
    exact ⟨Item.Sound.encodable h.1, Program.Sound.encodable h.2⟩

end

end Tabletop
