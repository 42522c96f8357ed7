import Tabletop.Value

/-!
# The stack

The values that words take and leave, together with the most there have been at one time.
-/

namespace Tabletop

/-- Values from the top down. Their number is kept at hand, and `peak` is the largest it has
been. -/
structure Stack where
  values : List Value
  size : Nat
  peak : Nat
  size_eq : size = values.length
  size_le_peak : size ≤ peak

namespace Stack

def empty : Stack := ⟨[], 0, 0, rfl, Nat.le_refl _⟩

def push (stack : Stack) (value : Value) : Stack where
  values := value :: stack.values
  size := stack.size + 1
  peak := max stack.peak (stack.size + 1)
  size_eq := by simp [stack.size_eq]
  size_le_peak := Nat.le_max_right _ _

/-- Take the value off the top. -/
def pop? (stack : Stack) : Option (Value × Stack) :=
  match h : stack.values with
  | [] => none
  | value :: values => some (value,
    { values := values
      size := stack.size - 1
      peak := stack.peak
      size_eq := by simp [stack.size_eq, h]
      size_le_peak := Nat.le_trans (Nat.sub_le _ _) stack.size_le_peak })

/-- The values from the bottom up. -/
def toList (stack : Stack) : List Value := stack.values.reverse

@[simp] theorem toList_empty : empty.toList = [] := rfl

@[simp] theorem toList_push (stack : Stack) (value : Value) :
    (stack.push value).toList = stack.toList ++ [value] := by
  simp [toList, push]

@[simp] theorem values_push (stack : Stack) (value : Value) :
    (stack.push value).values = value :: stack.values := rfl

theorem pop?_of_nil {stack : Stack} (h : stack.values = []) : stack.pop? = none := by
  unfold pop?
  split
  · rfl
  · simp_all

theorem pop?_of_cons {stack : Stack} {value : Value} {values : List Value}
    (h : stack.values = value :: values) :
    ∃ rest, stack.pop? = some (value, rest) ∧ rest.values = values := by
  unfold pop?
  split
  · simp_all
  · rename_i value' values' h'
    obtain ⟨rfl, rfl⟩ := List.cons.inj (h'.symm.trans h)
    exact ⟨_, rfl, rfl⟩

end Stack

end Tabletop
