import Tabletop.Text.DefaultIgnorable
import Tabletop.Text.GraphemeMarks
import Tabletop.Text.Numeral
import Tabletop.Text.Unprintable

/-!
# Quoted text

Text shown between marks so that it can be read back: a character that has no form of its own, or
that would be taken for the closing mark, is written as an escape.
-/

namespace Tabletop.Text

/-- Does the character need an escape because it cannot be seen on its own? -/
def isHidden (c : Char) : Bool :=
  graphemeMarks.contains c || unprintable.contains c || defaultIgnorable.contains c

/-- How a character is written between two `mark`s. -/
def escape (mark c : Char) : List Char :=
  if c = '\x00' then ['\\', '0']
  else if c = '\t' then ['\\', 't']
  else if c = '\r' then ['\\', 'r']
  else if c = '\n' then ['\\', 'n']
  else if c = '\\' ∨ c = mark then ['\\', c]
  else if isHidden c then ['\\', 'u', '\x7b'] ++ hexDigits c.toNat ++ ['\x7d']
  else [c]

/-- The text between two `mark`s. -/
def quotedWith (mark : Char) (text : List Char) : List Char :=
  mark :: text.flatMap (escape mark) ++ [mark]

/-- A text between double quotes. -/
def quoted (text : String) : String := String.ofList (quotedWith '\"' text.toList)

/-- A single character between single quotes. -/
def quotedChar (c : Char) : String := String.ofList (quotedWith '\'' [c])

end Tabletop.Text
