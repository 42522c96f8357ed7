import Tabletop.Value

/-!
# Cursors

A cursor reads a list of items from the front to the end. It never goes back: it moves by one item
when it reads, or ahead to a given position. A failed read says why and leaves the cursor just past
what it has read.
-/

namespace Tabletop

/-- Why code, or another list of items, cannot be read. Every position counts from the start. -/
inductive DecodeError where
  /-- The items end where another one was needed. -/
  | exhausted (position : Nat)
  | unknownOpcode (opcode : UInt8) (position : Nat)
  | unknownTag (tag : UInt8) (position : Nat)
  /-- The bytes after a tag are no value of its kind. -/
  | invalidPayload (kind : Kind) (position : Nat)
  /-- The name of a word holds bytes that are not ASCII. -/
  | invalidWordName (position : Nat)
  /-- The target lies behind the position or beyond the end. -/
  | invalidJump (position target : Nat)
deriving DecidableEq, Repr

def DecodeError.message : DecodeError → String
  | exhausted position =>
    "instruction stream exhausted at offset " ++ Text.showNat position
  | unknownOpcode opcode position =>
    "unknown opcode " ++ Text.showByte opcode ++ " at offset " ++ Text.showNat position
  | unknownTag tag position =>
    "unknown value tag " ++ Text.showByte tag ++ " at offset " ++ Text.showNat position
  | invalidPayload kind position =>
    "invalid " ++ kind.name ++ " payload at offset " ++ Text.showNat position
  | invalidWordName position =>
    "word name at offset " ++ Text.showNat position ++ " is not ASCII"
  | invalidJump position target =>
    "jump from offset " ++ Text.showNat position ++ " to " ++ Text.showNat target ++
      " is outside the instruction stream"

/-- A position in a list of items. The number of items and those not yet read are kept at hand. -/
structure Cursor (α : Type) where
  items : List α
  position : Nat
  size : Nat
  rest : List α
  size_eq : size = items.length
  position_le : position ≤ size
  rest_eq : rest = items.drop position

namespace Cursor

variable {α : Type}

/-- A cursor in front of the first item. -/
def start (items : List α) : Cursor α where
  items := items
  position := 0
  size := items.length
  rest := items
  size_eq := rfl
  position_le := Nat.zero_le _
  rest_eq := rfl

/-- Is there an item left to read? -/
def hasNext (cursor : Cursor α) : Bool := cursor.position < cursor.size

/-- How many items are left to read. -/
def remaining (cursor : Cursor α) : Nat := cursor.size - cursor.position

theorem length_rest (cursor : Cursor α) : cursor.rest.length = cursor.remaining := by
  rw [cursor.rest_eq, List.length_drop, remaining, cursor.size_eq]

/-- Two cursors over the same items at the same position are the same. -/
@[ext] theorem ext {a b : Cursor α} (items : a.items = b.items)
    (position : a.position = b.position) : a = b := by
  obtain ⟨ai, ap, as, ar, has, hap, har⟩ := a
  obtain ⟨bi, bp, bs, br, hbs, hbp, hbr⟩ := b
  obtain rfl : ai = bi := items
  obtain rfl : ap = bp := position
  subst has har hbs hbr
  rfl

/-- The cursor `n` items ahead. -/
def ahead (cursor : Cursor α) (n : Nat) (h : n ≤ cursor.remaining) : Cursor α where
  items := cursor.items
  position := cursor.position + n
  size := cursor.size
  rest := cursor.rest.drop n
  size_eq := cursor.size_eq
  position_le := by
    have := cursor.position_le
    simp only [remaining] at h
    omega
  rest_eq := by rw [cursor.rest_eq, List.drop_drop]

/-! ## Reading -/

/-- Something read from a list of items. The cursor moves even if the reading fails. -/
abbrev Read (ι α : Type) := EStateM DecodeError (Cursor ι) α

/-- Where the cursor is. -/
def here : Read α Nat := fun cursor => .ok cursor.position cursor

/-- Read one item. -/
def next : Read α α := fun cursor =>
  match h : cursor.rest with
  | [] => .error (.exhausted cursor.position) cursor
  | item :: _ => .ok item (cursor.ahead 1 (by simp [← cursor.length_rest, h]))

/-- Move ahead to `target`. The end is a place to move to, the items already read are not. -/
def advanceTo (target : Nat) : Read α Unit := fun cursor =>
  if h : cursor.position ≤ target ∧ target ≤ cursor.size then
    .ok () (cursor.ahead (target - cursor.position) (by simp only [remaining]; omega))
  else
    .error (.invalidJump cursor.position target) cursor

/-- Read the items in front of the first one equal to `stop`, and that one too. Without one, all
items are read in vain. -/
def readUntil [BEq α] (stop : α) : Read α (List α) := fun cursor =>
  let items := cursor.rest.takeWhile (· != stop)
  if h : items.length < cursor.remaining then
    .ok items (cursor.ahead (items.length + 1) h)
  else
    .error (.exhausted cursor.size) (cursor.ahead cursor.remaining (Nat.le_refl _))

end Cursor

end Tabletop
