import Tabletop.Text.Numeral

/-!
# Locations

Where a character stands in a program: the path of the text, the line and the column, both counted
from one. Columns count characters.
-/

namespace Tabletop

/-- A place in the text named `path`. -/
structure Location where
  path : String
  line : Nat
  column : Nat
deriving DecidableEq, Repr

namespace Location

/-- The first character of the text named `path`. -/
def start (path : String) : Location := ⟨path, 1, 1⟩

/-- The place of things that were not read from any text. -/
def unspecified : Location := start "unspecified"

/-- The place just after the character `c`: a newline starts the next line. -/
def after (location : Location) (c : Char) : Location :=
  if c = '\n' then { location with line := location.line + 1, column := 1 }
  else { location with column := location.column + 1 }

/-- The place reached from `location` by reading all of `text`. -/
def afterAll (location : Location) (text : List Char) : Location := text.foldl after location

/-- A place as `path (line, column)`. -/
def text (location : Location) : String :=
  location.path ++ " (" ++ Text.showNat location.line ++ ", " ++ Text.showNat location.column ++ ")"

end Location

end Tabletop
