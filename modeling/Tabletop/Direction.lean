/-!
# Directions

The four ways a robot can face. North is up the table, in the direction of growing `y`.
-/

namespace Tabletop

inductive Direction where
  | north
  | east
  | south
  | west
deriving DecidableEq, Repr

namespace Direction

/-- All directions, clockwise from north. -/
def all : List Direction := [north, east, south, west]

/-- The word for a direction in programs and reports. -/
def name : Direction → String
  | north => "NORTH"
  | east => "EAST"
  | south => "SOUTH"
  | west => "WEST"

/-- The direction with the given name. -/
def ofName? (name : String) : Option Direction := all.find? (·.name == name)

/-- The name in title case, used where a value is shown together with its kind. -/
def title : Direction → String
  | north => "North"
  | east => "East"
  | south => "South"
  | west => "West"

/-- The byte that stands for a direction in code. -/
def toByte : Direction → UInt8
  | north => 0
  | east => 1
  | south => 2
  | west => 3

/-- The direction that a byte stands for. -/
def ofByte? (byte : UInt8) : Option Direction := all.find? (·.toByte == byte)

/-- A quarter turn anticlockwise. -/
def left : Direction → Direction
  | north => west
  | west => south
  | south => east
  | east => north

/-- A quarter turn clockwise. -/
def right : Direction → Direction
  | north => east
  | east => south
  | south => west
  | west => north

/-- One step in this direction, along `x`. -/
def dx : Direction → Int64
  | east => 1
  | west => -1
  | _ => 0

/-- One step in this direction, along `y`. -/
def dy : Direction → Int64
  | north => 1
  | south => -1
  | _ => 0

@[simp] theorem ofName?_name (d : Direction) : ofName? d.name = some d := by
  cases d <;> decide

@[simp] theorem ofByte?_toByte (d : Direction) : ofByte? d.toByte = some d := by
  cases d <;> rfl

@[simp] theorem right_left (d : Direction) : d.left.right = d := by
  cases d <;> rfl

@[simp] theorem left_right (d : Direction) : d.right.left = d := by
  cases d <;> rfl

end Direction

end Tabletop
