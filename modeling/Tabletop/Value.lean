import Tabletop.Direction
import Tabletop.Text.Numeral
import Tabletop.Text.Quoted

/-!
# Values

What programs compute with: 64-bit integers, directions, truth values and texts.
-/

namespace Tabletop

/-- The four kinds of value. -/
inductive Kind where
  | int
  | direction
  | bool
  | string
deriving DecidableEq, Repr

namespace Kind

/-- All kinds, in the order of their tags. -/
def all : List Kind := [int, direction, bool, string]

def name : Kind → String
  | int => "INT"
  | direction => "DIRECTION"
  | bool => "BOOL"
  | string => "STRING"

/-- The byte that announces a value of this kind in code. -/
def tag : Kind → UInt8
  | int => 0
  | direction => 1
  | bool => 2
  | string => 3

/-- The kind that a tag announces. -/
def ofTag? (tag : UInt8) : Option Kind := all.find? (·.tag == tag)

@[simp] theorem ofTag?_tag (k : Kind) : ofTag? k.tag = some k := by
  cases k <;> rfl

end Kind

inductive Value where
  | int (n : Int64)
  | direction (d : Direction)
  | bool (b : Bool)
  | string (s : String)
deriving DecidableEq, Repr

/-- The word for a truth value. -/
def boolName (b : Bool) : String := if b then "TRUE" else "FALSE"

/-- The truth value with the given name. -/
def boolOfName? (name : String) : Option Bool := [true, false].find? (boolName · == name)

@[simp] theorem boolOfName?_boolName (b : Bool) : boolOfName? (boolName b) = some b := by
  cases b <;> decide

namespace Value

def kind : Value → Kind
  | int _ => .int
  | direction _ => .direction
  | bool _ => .bool
  | string _ => .string

/-- A value as it is printed: the way it is written in a program, but a text without its quotes. -/
def text : Value → String
  | int n => Text.showInt n.toInt
  | direction d => d.name
  | bool b => boolName b
  | string s => s

/-- A value together with its kind, for messages. A text is quoted. -/
def describe : Value → String
  | int n => "Int(" ++ Text.showInt n.toInt ++ ")"
  | direction d => "Direction(" ++ d.title ++ ")"
  | bool b => "Bool(" ++ (if b then "true" else "false") ++ ")"
  | string s => "String(" ++ Text.quoted s ++ ")"

def int? : Value → Option Int64
  | int n => some n
  | _ => none

def direction? : Value → Option Direction
  | direction d => some d
  | _ => none

def bool? : Value → Option Bool
  | bool b => some b
  | _ => none

def string? : Value → Option String
  | string s => some s
  | _ => none

end Value

end Tabletop
