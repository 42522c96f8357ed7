import Tabletop.Direction
import Tabletop.Table

/-!
# Robots

A robot stands on a table, once it has been placed, and faces one of the four directions. An order
that would take it off the table, or that needs a robot that is not there yet, is refused, and then
nothing changes.
-/

namespace Tabletop

/-- Where a robot stands and where it looks. -/
structure Pose where
  x : Int64
  y : Int64
  facing : Direction
deriving DecidableEq, Repr

namespace Pose

/-- The pose one square ahead. -/
def ahead (pose : Pose) : Pose :=
  { pose with x := pose.x + pose.facing.dx, y := pose.y + pose.facing.dy }

/-- A pose as it is reported, `X,Y,DIRECTION`. -/
def text (pose : Pose) : String :=
  Text.showInt pose.x.toInt ++ "," ++ Text.showInt pose.y.toInt ++ "," ++ pose.facing.name

end Pose

/-- What a robot can be told. -/
inductive Order where
  | place (x y : Int64) (facing : Direction)
  | move
  | left
  | right
deriving DecidableEq, Repr

/-- Why an order is refused. -/
inductive Refusal where
  | placedOutside (x y : Int64) (table : Table)
  | movedUnplaced
  | movedOff (pose : Pose)
  | turnedUnplaced
deriving DecidableEq, Repr

def Refusal.message : Refusal → String
  | placedOutside x y table =>
    "Ignoring PLACE at " ++ Text.showInt x.toInt ++ "," ++ Text.showInt y.toInt ++ " outside the " ++
      Text.showInt table.width.toInt ++ "x" ++ Text.showInt table.height.toInt ++ " table."
  | movedUnplaced => "Ignoring MOVE, the robot has not been placed."
  | movedOff pose => "Ignoring MOVE from " ++ pose.text ++ ", it would leave the table."
  | turnedUnplaced => "Ignoring turn, the robot has not been placed."

/-- A table and the robot on it, if it has been placed. -/
structure Robot where
  table : Table
  pose : Option Pose
deriving DecidableEq, Repr

namespace Robot

/-- A table on which no robot has been placed. -/
def unplaced (table : Table) : Robot := ⟨table, none⟩

/-- Turn a placed robot. -/
def turn (robot : Robot) (rotate : Direction → Direction) : Except Refusal Robot :=
  match robot.pose with
  | none => .error .turnedUnplaced
  | some pose => .ok { robot with pose := some { pose with facing := rotate pose.facing } }

/-- Follow an order, or say why it is refused. -/
def obey (robot : Robot) : Order → Except Refusal Robot
  | .place x y facing =>
    if robot.table.Contains x y then .ok { robot with pose := some ⟨x, y, facing⟩ }
    else .error (.placedOutside x y robot.table)
  | .move =>
    match robot.pose with
    | none => .error .movedUnplaced
    | some pose =>
      if robot.table.Contains pose.ahead.x pose.ahead.y then
        .ok { robot with pose := some pose.ahead }
      else .error (.movedOff pose)
  | .left => robot.turn Direction.left
  | .right => robot.turn Direction.right

end Robot

end Tabletop
