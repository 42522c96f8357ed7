import Tabletop.Reader
import Tabletop.Token.Scan

/-!
# Reading tokens

A text can also be cut into tokens by reading it. Before a token is read, its first character is
looked at: that tells blanks, strings and bare runs apart. Blanks and bare runs are read up to a
character that does not belong to them, which stays unread. A string is read to its end, and a
character in it is looked at only when the reader stands behind it already.
-/

namespace Tabletop

namespace Token

open Reader

/-- Read the blanks in front. -/
def skipBlanks (reader : Reader) : Reader :=
  match _ : reader.serve .peek with
  | (none, peeked) => peeked
  | (some c, peeked) => if Text.isBlank c then skipBlanks (peeked.serve .next).2 else peeked
termination_by reader.rest.length
decreasing_by exact length_next_of_peek ‹_›

/-- Read a string that was opened at `start` to its end. Its characters so far are given newest
first. -/
def readQuoted (start : Location) (text : List Char) (reader : Reader) :
    Except ScanError (List Char × Reader) :=
  match _ : reader.serve .next with
  | (none, _) => .error (.unterminatedString start)
  | (some c, after) =>
    if c = '\"' then .ok (text.reverse, after)
    else if c = '\x00' then .error (.invalidCharacter after.location c)
    else readQuoted start (c :: text) after
termination_by reader.rest.length
decreasing_by exact length_next ‹_›

/-- Read a bare run to its end. Its characters so far are given newest first. -/
def readBare (text : List Char) (reader : Reader) : Except ScanError (List Char × Reader) :=
  match _ : reader.serve .peek with
  | (none, peeked) => .ok (text.reverse, peeked)
  | (some c, peeked) =>
    if Text.isBlank c then .ok (text.reverse, peeked)
    else if isGraphic c then readBare (c :: text) (peeked.serve .next).2
    else .error (.invalidCharacter peeked.location c)
termination_by reader.rest.length
decreasing_by exact length_next_of_peek ‹_›

/-- Read the token in front, which begins with the character `c`. -/
def readToken (c : Char) (reader : Reader) : Except ScanError (Token × Reader) :=
  if c = '\"' then do
    let (text, after) ← readQuoted reader.location [] (reader.serve .next).2
    return (ofString (String.ofList text) reader.location, after)
  else do
    let (text, after) ← readBare [] reader
    let token ← ofBare reader.location text
    return (token, after)

theorem readBare_of_peek {reader peeked : Reader} {text : List Char} {c : Char}
    (h : reader.serve .peek = (some c, peeked)) :
    readBare text reader =
      if Text.isBlank c then .ok (text.reverse, peeked)
      else if isGraphic c then readBare (c :: text) (peeked.serve .next).2
      else .error (.invalidCharacter peeked.location c) := by
  rw [readBare]
  split <;> simp_all

/-! ## Less is left -/

theorem rest_skipBlanks (reader : Reader) :
    (skipBlanks reader).rest = reader.rest.dropWhile Text.isBlank := by
  fun_induction skipBlanks reader with
  | case1 reader peeked h =>
    rw [rest_peeked h, rest_of_none h]
    rfl
  | case2 reader c peeked h hblank ih =>
    rw [ih, rest_of_peek h, List.dropWhile_cons_of_pos hblank]
  | case3 reader c peeked h hblank =>
    rw [rest_peeked h, rest_of_peek h, List.dropWhile_cons_of_neg hblank]

/-- The closing quote is read at least. -/
theorem length_rest_of_readQuoted {start : Location} {text text' : List Char}
    {reader after : Reader} (h : readQuoted start text reader = .ok (text', after)) :
    after.rest.length < reader.rest.length := by
  fun_induction readQuoted start text reader with
  | case1 text reader after' hnext => cases h
  | case2 text reader after' hnext =>
    cases h
    exact length_next hnext
  | case3 text reader after' hnext => cases h
  | case4 text reader c after' hnext hquote hzero ih =>
    exact Nat.lt_trans (ih h) (length_next hnext)

theorem length_rest_of_readBare {text text' : List Char} {reader after : Reader}
    (h : readBare text reader = .ok (text', after)) :
    after.rest.length ≤ reader.rest.length := by
  fun_induction readBare text reader with
  | case1 text reader peeked hpeek =>
    cases h
    exact Nat.le_of_eq (congrArg List.length (rest_peeked hpeek))
  | case2 text reader c peeked hpeek hblank =>
    cases h
    exact Nat.le_of_eq (congrArg List.length (rest_peeked hpeek))
  | case3 text reader c peeked hpeek hblank hgraphic ih =>
    exact Nat.le_trans (ih h) (Nat.le_of_lt (length_next_of_peek hpeek))
  | case4 text reader c peeked hpeek hblank hgraphic => cases h

/-- The character that was looked at is read at least. -/
theorem length_rest_of_readToken {c : Char} {reader peeked after : Reader} {token : Token}
    (hpeek : reader.serve .peek = (some c, peeked)) (hblank : ¬ Text.isBlank c)
    (h : readToken c peeked = .ok (token, after)) : after.rest.length < reader.rest.length := by
  have hnext := length_next_of_peek hpeek
  unfold readToken at h
  split at h
  · cases hread : readQuoted peeked.location [] (peeked.serve .next).2 with
    | error e =>
      rw [hread] at h
      cases h
    | ok result =>
      rw [hread] at h
      cases h
      exact Nat.lt_trans (length_rest_of_readQuoted hread) hnext
  · cases hread : readBare [] peeked with
    | error e =>
      rw [hread] at h
      cases h
    | ok result =>
      obtain ⟨text, after'⟩ := result
      have hafter : after' = after := by
        simp only [hread, bind, Except.bind] at h
        split at h
        · cases h
        · cases h
          rfl
      subst hafter
      rw [readBare_of_peek (peek_of_peek hpeek), if_neg hblank] at hread
      split at hread
      · exact Nat.lt_of_le_of_lt (length_rest_of_readBare hread) hnext
      · cases hread

theorem length_rest_of_skipBlanks {c : Char} {reader peeked : Reader}
    (hpeek : reader.serve .peek = (some c, peeked)) (hblank : Text.isBlank c) :
    (skipBlanks peeked).rest.length < reader.rest.length := by
  rw [rest_skipBlanks, rest_peeked hpeek, rest_of_peek hpeek, List.dropWhile_cons_of_pos hblank]
  exact Nat.lt_succ_of_le (List.dropWhile_suffix _).length_le

/-- Read tokens to the end of the text. Those so far are given newest first. -/
def readTokens (tokens : List Token) (reader : Reader) : Except ScanError (List Token) :=
  match _ : reader.serve .peek with
  | (none, _) => .ok tokens.reverse
  | (some c, peeked) =>
    if _ : Text.isBlank c then readTokens tokens (skipBlanks peeked)
    else
      match _ : readToken c peeked with
      | .error e => .error e
      | .ok (token, after) => readTokens (token :: tokens) after
termination_by reader.rest.length
decreasing_by
  · exact length_rest_of_skipBlanks ‹_› ‹_›
  · exact length_rest_of_readToken ‹_› ‹_› ‹_›

/-- Cut the text named `path` into tokens by reading it. -/
def readAll (path source : String) : Except ScanError (List Token) :=
  readTokens [] (.start path source)

end Token

end Tabletop
