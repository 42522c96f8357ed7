import Tabletop.Text.CodePoints

/-!
# Blanks

Blanks are the characters with the Unicode property `White_Space`. They separate the words of a
program and are dropped from both ends of a setting.
-/

namespace Tabletop.Text

/-- The code points with the property `White_Space`. -/
def whiteSpace : CodePoints where
  ranges := [
    (0x9, 0xD), (0x20, 0x20), (0x85, 0x85), (0xA0, 0xA0), (0x1680, 0x1680), (0x2000, 0x200A),
    (0x2028, 0x2029), (0x202F, 0x202F), (0x205F, 0x205F), (0x3000, 0x3000)]

/-- Is the character whitespace? -/
def isBlank (c : Char) : Bool := whiteSpace.contains c

/-- Drop the characters at the end of the text that satisfy `p`, up to one that does not. -/
def dropEndWhile (p : Char → Bool) (text : List Char) : List Char :=
  (text.reverse.dropWhile p).reverse

theorem exists_dropEndWhile (p : Char → Bool) (text : List Char) :
    ∃ dropped, text = dropEndWhile p text ++ dropped ∧ ∀ c ∈ dropped, p c = true := by
  refine ⟨(text.reverse.takeWhile p).reverse, ?_, fun c hc => ?_⟩
  · rw [dropEndWhile, ← List.reverse_append, List.takeWhile_append_dropWhile,
      List.reverse_reverse]
  · exact List.all_eq_true.1 List.all_takeWhile c (List.mem_reverse.1 hc)

/-- The text without the blanks at its two ends. -/
def trim (text : List Char) : List Char :=
  dropEndWhile isBlank (text.dropWhile isBlank)

/-- Is there nothing but blanks? -/
def allBlank (text : List Char) : Bool := text.all isBlank

end Tabletop.Text
