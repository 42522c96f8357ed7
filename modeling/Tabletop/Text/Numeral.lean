/-!
# Numerals

Reading and writing whole numbers in decimal and hexadecimal, and fitting exact integers into 64
bits.
-/

namespace Tabletop.Text

/-! ## Reading -/

/-- Is the character one of the ten ASCII digits? -/
def isDigit (c : Char) : Bool := '0' ≤ c && c ≤ '9'

/-- The value of a run of digits, most significant first. -/
def decimalValue (digits : List Char) : Nat :=
  digits.foldl (fun n c => 10 * n + (c.toNat - '0'.toNat)) 0

/-- Read a whole number: one or more digits and nothing else. -/
def readNat? (text : List Char) : Option Nat :=
  if !text.isEmpty && text.all isDigit then some (decimalValue text) else none

/-- Read an integer: at most one sign, then one or more digits. -/
def readInt? : List Char → Option Int
  | '+' :: digits => (readNat? digits).map Int.ofNat
  | '-' :: digits => (readNat? digits).map fun n => - (n : Int)
  | digits => (readNat? digits).map Int.ofNat

/-- The 64-bit integer equal to `n`, if there is one. -/
def toInt64? (n : Int) : Option Int64 :=
  if Int64.minValue.toInt ≤ n ∧ n ≤ Int64.maxValue.toInt then some (Int64.ofInt n) else none

/-! ## Writing -/

/-- The digits of `n` in decimal, most significant first, without leading zeros. -/
def decimalDigits (n : Nat) : List Char := Nat.toDigits 10 n

/-- The digits of `n` in lower case hexadecimal, without leading zeros. -/
def hexDigits (n : Nat) : List Char := Nat.toDigits 16 n

/-- Put `fill` in front of the text until it has `width` characters. A longer text stays. -/
def padStart (width : Nat) (fill : Char) (text : List Char) : List Char :=
  List.replicate (width - text.length) fill ++ text

/-- Put `fill` behind the text until it has `width` characters. A longer text stays. -/
def padEnd (width : Nat) (fill : Char) (text : List Char) : List Char :=
  text ++ List.replicate (width - text.length) fill

/-- A whole number in decimal. -/
def showNat (n : Nat) : String := String.ofList (decimalDigits n)

/-- An integer in decimal, with a minus sign in front of a negative one. -/
def showInt (n : Int) : String :=
  if n < 0 then "-" ++ showNat n.natAbs else showNat n.natAbs

/-- An offset into the code: at least four digits. -/
def showOffset (n : Nat) : String := String.ofList (padStart 4 '0' (decimalDigits n))

/-- A byte as `0x` and two hexadecimal digits. -/
def showByte (b : UInt8) : String := "0x" ++ String.ofList (padStart 2 '0' (hexDigits b.toNat))

end Tabletop.Text
