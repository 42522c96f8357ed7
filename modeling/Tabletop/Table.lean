import Tabletop.Text.Blank
import Tabletop.Text.Numeral

/-!
# Tables

The table a robot stands on, `width` squares from west to east and `height` from south to north. The
square in the south west corner is (0, 0). Its size is taken from two settings, each of which has to
be a positive integer of 64 bits if it is given at all.
-/

namespace Tabletop

structure Table where
  width : Int64
  height : Int64
deriving DecidableEq, Repr

namespace Table

/-- The table that is used where no size is given. -/
def standard : Table := ⟨5, 5⟩

/-- Is (`x`, `y`) a square of the table? -/
def Contains (table : Table) (x y : Int64) : Prop :=
  0 ≤ x ∧ x < table.width ∧ 0 ≤ y ∧ y < table.height

instance (table : Table) (x y : Int64) : Decidable (table.Contains x y) :=
  inferInstanceAs (Decidable (_ ∧ _ ∧ _ ∧ _))

end Table

/-! ## Settings -/

/-- Why a setting or an argument is refused. -/
inductive ConfigError where
  | notPositive (setting found : String)
  | unexpectedArgument (argument : String)
deriving DecidableEq, Repr

def ConfigError.message : ConfigError → String
  | notPositive setting found =>
    "invalid configuration: " ++ setting ++ " must be a positive integer, found '" ++ found ++ "'"
  | unexpectedArgument argument =>
    "invalid configuration: unexpected argument '" ++ argument ++ "'"

namespace Table

/-- Names the setting for the number of squares from west to east. -/
def widthSetting : String := "TOYROBOT_TABLE_WIDTH"

/-- Names the setting for the number of squares from south to north. -/
def heightSetting : String := "TOYROBOT_TABLE_HEIGHT"

/-- Read a length: a positive integer of 64 bits, with blanks around it or not. -/
def readLength? (text : String) : Option Int64 := do
  let exact ← Text.readInt? (Text.trim text.toList)
  let length ← Text.toInt64? exact
  if 0 < length then some length else none

/-- The length in a setting, or `default` if it is not given. -/
def length (setting : String) (default : Int64) : Option String → Except ConfigError Int64
  | none => .ok default
  | some text =>
    match readLength? text with
    | some length => .ok length
    | none => .error (.notPositive setting text)

/-- The table that the settings ask for. The width is looked at first. -/
def ofSettings (lookup : String → Option String) : Except ConfigError Table := do
  let width ← length widthSetting standard.width (lookup widthSetting)
  let height ← length heightSetting standard.height (lookup heightSetting)
  return ⟨width, height⟩

end Table

end Tabletop
