import Tabletop.Token.Read

/-!
# Reading and scanning agree

The scanner takes one character at a time and keeps what it is in the middle of in its mode. The
reader stays within a loop for as long as it is in the middle of something. So each loop does what
the scanner does in one of its modes (`complete_quoted`, `complete_bare`), with the same locations,
and both give the same tokens or the same error for every text (`readAll_eq_scan`).
-/

namespace Tabletop

namespace Token

open Reader

/-- What the scanner makes of the rest of a text. -/
def Scan.complete (scan : Scan) (text : List Char) : Except ScanError (List Token) := do
  let last ← text.foldlM Scan.step scan
  last.finish

private theorem Scan.complete_cons (scan : Scan) (c : Char) (text : List Char) :
    scan.complete (c :: text) = scan.step c >>= fun next => next.complete text := by
  unfold complete
  rw [List.foldlM_cons, bind_assoc]

/-- The scanner between two tokens, in front of what is left to a reader. -/
def Scan.resume (reader : Reader) (tokens : List Token) : Except ScanError (List Token) :=
  (Scan.mk .between reader.location tokens).complete reader.rest

section Loops

variable {reader peeked : Reader} {tokens : List Token} {c : Char}

private theorem Scan.resume_peeked {answer : Option Char}
    (h : reader.serve .peek = (answer, peeked)) :
    Scan.resume reader tokens = Scan.resume peeked tokens := by
  rw [resume, resume, rest_peeked h, location_peeked h]

/-- A blank between two tokens. -/
theorem resume_of_blank (h : reader.serve .peek = (some c, peeked)) (hblank : Text.isBlank c) :
    Scan.resume reader tokens = Scan.resume (peeked.serve .next).2 tokens := by
  rw [Scan.resume, Scan.resume, rest_of_peek h, Scan.complete_cons]
  simp only [Scan.step, if_pos hblank, location_of_peek h]
  rfl

private theorem resume_skipBlanks (reader : Reader) (tokens : List Token) :
    Scan.resume (skipBlanks reader) tokens = Scan.resume reader tokens := by
  fun_induction skipBlanks reader with
  | case1 reader peeked h => exact (Scan.resume_peeked h).symm
  | case2 reader c peeked h hblank ih => rw [ih, resume_of_blank h hblank]
  | case3 reader c peeked h hblank => exact (Scan.resume_peeked h).symm

/-- In the middle of a string. -/
theorem complete_quoted (start : Location) (text : List Char) (reader : Reader) :
    (Scan.mk (.quoted start text) reader.location tokens).complete reader.rest =
      readQuoted start text reader >>= fun read =>
        Scan.resume read.2 (ofString (String.ofList read.1) start :: tokens) := by
  fun_induction readQuoted start text reader with
  | case1 text reader after h =>
    rw [rest_of_none h]
    rfl
  | case2 text reader after h =>
    rw [rest_of_next h, Scan.complete_cons]
    simp only [Scan.step, if_true, ← location_of_next h]
    rfl
  | case3 text reader after h =>
    rw [rest_of_next h, Scan.complete_cons]
    simp only [Scan.step, ← location_of_next h]
    rfl
  | case4 text reader c after h hquote hzero ih =>
    rw [rest_of_next h, Scan.complete_cons, ← ih, location_of_next h]
    simp only [Scan.step, if_neg hquote, if_neg hzero]
    rfl

/-- In the middle of a bare run. -/
theorem complete_bare (start : Location) (text : List Char) (reader : Reader) :
    (Scan.mk (.bare start text) reader.location tokens).complete reader.rest =
      readBare text reader >>= fun read =>
        ofBare start read.1 >>= fun token => Scan.resume read.2 (token :: tokens) := by
  fun_induction readBare text reader with
  | case1 text reader peeked h =>
    have hend : peeked.rest = [] := (rest_peeked h).trans (rest_of_none h)
    have hfinish (token : Token) :
        Scan.resume peeked (token :: tokens) = .ok (token :: tokens).reverse := by
      rw [Scan.resume, hend]
      rfl
    rw [rest_of_none h]
    exact bind_congr fun token => (hfinish token).symm
  | case2 text reader c peeked h hblank =>
    -- The scanner takes the blank together with the token, the reader leaves it for later.
    rw [rest_of_peek h, Scan.complete_cons]
    simp only [Scan.step, if_pos hblank]
    rw [bind_assoc]
    refine bind_congr fun token => ?_
    rw [← Scan.resume_peeked h, resume_of_blank h hblank, Scan.resume, location_of_peek h]
    rfl
  | case3 text reader c peeked h hblank hgraphic ih =>
    rw [rest_of_peek h, Scan.complete_cons, ← ih, location_of_peek h]
    simp only [Scan.step, if_neg hblank, if_pos hgraphic]
    rfl
  | case4 text reader c peeked h hblank hgraphic =>
    rw [rest_of_peek h, Scan.complete_cons, location_peeked h]
    simp only [Scan.step, if_neg hblank, if_neg hgraphic]
    rfl

/-- In front of a token. -/
theorem resume_token (h : reader.serve .peek = (some c, peeked)) (hblank : ¬ Text.isBlank c) :
    Scan.resume reader tokens =
      readToken c peeked >>= fun read => Scan.resume read.2 (read.1 :: tokens) := by
  rw [Scan.resume, rest_of_peek h, Scan.complete_cons, readToken, location_peeked h]
  by_cases hquote : c = '\"'
  · have hquoted := @complete_quoted tokens reader.location [] (peeked.serve .next).2
    rw [if_pos hquote, bind_assoc]
    simp only [Scan.step, if_neg hblank, if_pos hquote, ← location_of_peek h]
    exact hquoted
  · have hbare := @complete_bare tokens reader.location [c] (peeked.serve .next).2
    rw [if_neg hquote, readBare_of_peek (peek_of_peek h), if_neg hblank]
    simp only [Scan.step, if_neg hblank, if_neg hquote, ← location_of_peek h]
    split
    · simp only [bind_assoc]
      exact hbare
    · rw [location_peeked h]
      rfl

end Loops

/-- The loop over tokens does what the scanner does between two of them. -/
theorem readTokens_eq (tokens : List Token) (reader : Reader) :
    readTokens tokens reader = Scan.resume reader tokens := by
  fun_induction readTokens tokens reader with
  | case1 tokens reader peeked h =>
    rw [Scan.resume, rest_of_none h]
    rfl
  | case2 tokens reader c peeked h hblank ih =>
    rw [ih, resume_skipBlanks, Scan.resume_peeked h]
  | case3 tokens reader c peeked h hblank e hread =>
    rw [resume_token h hblank, hread]
    rfl
  | case4 tokens reader c peeked h hblank token after hread ih =>
    rw [resume_token h hblank, hread, ih]
    rfl

/-- A text that is read gives the tokens that the scanner gives, or the same error. -/
theorem readAll_eq_scan (path source : String) : readAll path source = scan path source :=
  readTokens_eq [] (.start path source)

end Token

end Tabletop
