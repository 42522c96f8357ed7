import Mathlib.Data.List.Forall2
import Mathlib.Data.Nat.Digits.Defs
import Tabletop.Token.Scan

/-!
# What texts are made of

A text of the language is blanks, and lexemes with blanks behind them. A lexeme is quoted or bare.
Blanks have to stand between a bare lexeme and the next one, while a quoted lexeme may be followed
directly. This is said here without the scanner: a `Cutting` is a text together with the way it is
cut, and what a lexeme stands for (`Stands`) is told by the lexeme alone. A text can be cut in one
way only (`Cutting.text_injective`).
-/

namespace Tabletop.Token

open Text (isBlank isDigit)

/-! ## Lexemes -/

/-- May the character stand between double quotes? -/
def isInside (c : Char) : Bool := c != '\"' && c != '\x00'

/-- A text between double quotes that holds neither a double quote nor NUL. -/
def IsQuoted (lexeme : List Char) : Prop :=
  ∃ text, lexeme = '\"' :: (text ++ ['\"']) ∧ ∀ c ∈ text, isInside c = true

/-- The number that digits denote in decimal, most significant first. -/
def numeralValue (digits : List Char) : Nat :=
  Nat.ofDigits 10 (digits.reverse.map fun c => c.toNat - '0'.toNat)

/-- One or more visible ASCII characters, the first of them no double quote. -/
structure IsRun (text : List Char) : Prop where
  nonempty : text ≠ []
  graphic : ∀ c ∈ text, isGraphic c = true
  unquoted : text.head? ≠ some '\"'

/-- A run that denotes a number of at most 64 bits if it is all digits. -/
structure IsBare (lexeme : List Char) : Prop extends IsRun lexeme where
  fits : (∀ c ∈ lexeme, isDigit c = true) → numeralValue lexeme < 2 ^ 64

def IsLexeme (lexeme : List Char) : Prop := IsQuoted lexeme ∨ IsBare lexeme

/-- What a lexeme stands for: a quoted one for the text between its quotes, digits for their number,
the names of directions and truth values for those, and any other bare one for a word. -/
inductive Stands (lexeme : List Char) : Token.Kind → Token.Payload → Prop
  | string {text : List Char} : lexeme = '\"' :: (text ++ ['\"']) →
    Stands lexeme .string (.text (.ofList text))
  | number {n : UInt64} : IsBare lexeme → (∀ c ∈ lexeme, isDigit c = true) →
    n.toNat = numeralValue lexeme → Stands lexeme .number (.number n)
  | direction {d : Direction} : String.ofList lexeme = d.name →
    Stands lexeme .direction (.direction d)
  | bool {b : Bool} : String.ofList lexeme = boolName b → Stands lexeme .bool (.bool b)
  | word : IsBare lexeme → (¬ ∀ c ∈ lexeme, isDigit c = true) →
    (∀ d : Direction, String.ofList lexeme ≠ d.name) →
    (∀ b, String.ofList lexeme ≠ boolName b) → Stands lexeme .word (.text (.ofList lexeme))

/-! ## Texts in pieces -/

def Blanks (text : List Char) : Prop := ∀ c ∈ text, isBlank c = true

/-- A lexeme and the blanks behind it. -/
structure Piece where
  lexeme : List Char
  gap : List Char

def Piece.text (piece : Piece) : List Char := piece.lexeme ++ piece.gap

/-- The text of pieces that follow one another. -/
def piecesText (pieces : List Piece) : List Char := pieces.flatMap Piece.text

/-- Pieces that may follow one another. Only behind a quoted lexeme, or at the end, there may be no
blanks. -/
structure Proper (pieces : List Piece) : Prop where
  lexemes : ∀ piece ∈ pieces, IsLexeme piece.lexeme
  gaps : ∀ piece ∈ pieces, Blanks piece.gap
  apart : ∀ piece ∈ pieces.dropLast, piece.gap = [] → IsQuoted piece.lexeme

/-- A way to cut a text: the blanks in front, and the pieces. -/
structure Cutting where
  lead : List Char
  pieces : List Piece
  lead_blank : Blanks lead
  proper : Proper pieces

/-- The text that is cut. Nothing of it is lost. -/
def Cutting.text (cutting : Cutting) : List Char := cutting.lead ++ piecesText cutting.pieces

/-- The lexemes of pieces that begin at `location`, each with its place. -/
def placed : Location → List Piece → List (Location × List Char)
  | _, [] => []
  | location, piece :: pieces =>
    (location, piece.lexeme) :: placed (location.afterAll piece.text) pieces

/-- The token of a lexeme at its place. -/
structure IsOf (place : Location × List Char) (token : Token) : Prop where
  location : token.location = place.1
  lexeme : token.lexeme = String.ofList place.2
  stands : Stands place.2 token.kind token.payload

/-- The tokens of a text that begins at `location` and is cut like this, one for each lexeme. -/
def Cutting.Gives (cutting : Cutting) (location : Location) (tokens : List Token) : Prop :=
  List.Forall₂ IsOf (placed (location.afterAll cutting.lead) cutting.pieces) tokens

theorem proper_nil : Proper [] := ⟨by simp, by simp, by simp⟩

theorem proper_cons {piece : Piece} {pieces : List Piece} :
    Proper (piece :: pieces) ↔ IsLexeme piece.lexeme ∧ Blanks piece.gap ∧
      (piece.gap = [] → pieces = [] ∨ IsQuoted piece.lexeme) ∧ Proper pieces := by
  constructor
  · rintro ⟨hlexemes, hgaps, hapart⟩
    rw [List.forall_mem_cons] at hlexemes hgaps
    cases pieces with
    | nil => exact ⟨hlexemes.1, hgaps.1, fun _ => .inl rfl, proper_nil⟩
    | cons next pieces =>
      rw [List.dropLast_cons_cons, List.forall_mem_cons] at hapart
      exact ⟨hlexemes.1, hgaps.1, fun hgap => .inr (hapart.1 hgap),
        hlexemes.2, hgaps.2, hapart.2⟩
  · rintro ⟨hlexeme, hgap, hapart, hpieces⟩
    refine ⟨List.forall_mem_cons.2 ⟨hlexeme, hpieces.lexemes⟩,
      List.forall_mem_cons.2 ⟨hgap, hpieces.gaps⟩, ?_⟩
    cases pieces with
    | nil => simp
    | cons next pieces =>
      rw [List.dropLast_cons_cons, List.forall_mem_cons]
      exact ⟨fun hnil => (hapart hnil).resolve_left (by simp), hpieces.apart⟩

/-! ## First characters -/

theorem isBlank_of_isGraphic {c : Char} (h : isGraphic c = true) : isBlank c = false := by
  have hranges : ∀ n < 127, 33 ≤ n → Text.CodePoints.search n Text.whiteSpace.ranges = false := by
    decide
  simp only [isGraphic, Bool.and_eq_true, decide_eq_true_eq, Char.le_def,
    UInt32.le_iff_toNat_le] at h
  have hlow : '!'.val.toNat = 33 := rfl
  have hhigh : '~'.val.toNat = 126 := rfl
  have hc : c.toNat = c.val.toNat := rfl
  exact hranges c.toNat (by omega) (by omega)

theorem isGraphic_of_isBlank {c : Char} (h : isBlank c = true) : isGraphic c = false := by
  cases hgraphic : isGraphic c with
  | false => rfl
  | true => exact absurd h (by simp [isBlank_of_isGraphic hgraphic])

theorem isBlank_quote : isBlank '\"' = false := by decide

/-- A lexeme begins with a character that is not blank: with a double quote if it is quoted, with
another visible character if it is bare. -/
theorem IsLexeme.exists_cons {lexeme : List Char} (h : IsLexeme lexeme) :
    ∃ c rest, lexeme = c :: rest ∧ isBlank c = false ∧ (c = '\"' ∨ isGraphic c = true) := by
  rcases h with ⟨text, rfl, _⟩ | h
  · exact ⟨'\"', _, rfl, isBlank_quote, .inl rfl⟩
  · cases lexeme with
    | nil => exact absurd rfl h.nonempty
    | cons c rest =>
      have hgraphic := h.graphic c List.mem_cons_self
      exact ⟨c, rest, rfl, isBlank_of_isGraphic hgraphic, .inr hgraphic⟩

theorem IsQuoted.head? {lexeme : List Char} (h : IsQuoted lexeme) : lexeme.head? = some '\"' := by
  obtain ⟨text, rfl, _⟩ := h
  rfl

theorem IsLexeme.quoted {rest : List Char} (h : IsLexeme ('\"' :: rest)) :
    IsQuoted ('\"' :: rest) :=
  h.resolve_right fun hbare => hbare.unquoted rfl

theorem IsLexeme.bare {c : Char} {rest : List Char} (h : IsLexeme (c :: rest)) (hc : c ≠ '\"') :
    IsBare (c :: rest) :=
  h.resolve_left fun hquoted => hc (Option.some.inj hquoted.head?)

theorem piecesText_cons (piece : Piece) (pieces : List Piece) :
    piecesText (piece :: pieces) = piece.lexeme ++ (piece.gap ++ piecesText pieces) := by
  simp [piecesText, Piece.text]

theorem piecesText_eq_nil {pieces : List Piece} (h : Proper pieces) :
    piecesText pieces = [] ↔ pieces = [] := by
  constructor
  · intro htext
    cases pieces with
    | nil => rfl
    | cons piece pieces =>
      obtain ⟨c, rest, hcons, -, -⟩ := (proper_cons.1 h).1.exists_cons
      simp [piecesText_cons, hcons] at htext
  · rintro rfl
    rfl

/-- The text of pieces does not begin with a blank. -/
theorem Proper.not_blank {pieces : List Piece} (h : Proper pieces) {c : Char}
    (hc : (piecesText pieces).head? = some c) : isBlank c = false := by
  cases pieces with
  | nil => cases hc
  | cons piece pieces =>
    obtain ⟨c', rest, hlexeme, hblank, _⟩ := (proper_cons.1 h).1.exists_cons
    rw [piecesText_cons, hlexeme] at hc
    cases hc
    exact hblank

/-- What follows a bare lexeme begins with a blank. -/
theorem Proper.blank_of_bare {piece : Piece} {pieces : List Piece}
    (h : Proper (piece :: pieces)) (hbare : IsBare piece.lexeme) {c : Char}
    (hc : (piece.gap ++ piecesText pieces).head? = some c) : isBlank c = true := by
  obtain ⟨_, hgap, hapart, _⟩ := proper_cons.1 h
  cases hgaps : piece.gap with
  | nil =>
    -- Without blanks behind it, the lexeme is the last one, and nothing follows.
    rcases hapart hgaps with rfl | hquoted
    · rw [hgaps] at hc
      cases hc
    · exact absurd hquoted.head? hbare.unquoted
  | cons c' gap =>
    rw [hgaps] at hc hgap
    cases hc
    exact hgap c List.mem_cons_self

/-! ## There is one way to cut a text -/

/-- A text is cut in one way into characters with a property and a rest that does not begin with
such a character. -/
theorem eq_of_append_eq {p : Char → Bool} {front front' back back' : List Char}
    (h : front ++ back = front' ++ back') (hfront : ∀ c ∈ front, p c = true)
    (hfront' : ∀ c ∈ front', p c = true) (hback : ∀ c ∈ back.head?, p c = false)
    (hback' : ∀ c ∈ back'.head?, p c = false) : front = front' ∧ back = back' := by
  have htake : ∀ {a b : List Char}, (∀ c ∈ a, p c = true) →
      (∀ c ∈ b.head?, p c = false) → (a ++ b).takeWhile p = a := by
    intro a b ha hb
    rw [List.takeWhile_append_of_pos ha]
    cases b with
    | nil => simp
    | cons c rest => simp [hb c rfl]
  have heq : front = front' := by
    rw [← htake hfront hback, ← htake hfront' hback', h]
  subst heq
  exact ⟨rfl, List.append_cancel_left h⟩

private theorem quoted_unique {text text' rest rest' : List Char}
    (htext : ∀ c ∈ text, isInside c = true)
    (htext' : ∀ c ∈ text', isInside c = true)
    (h : text ++ '\"' :: rest = text' ++ '\"' :: rest') : text = text' ∧ rest = rest' := by
  have hstop : ∀ {r : List Char}, ∀ c ∈ ('\"' :: r).head?, isInside c = false := by
    rintro r c ⟨⟩
    rfl
  obtain ⟨rfl, hrest⟩ := eq_of_append_eq h htext htext' hstop hstop
  exact ⟨rfl, (List.cons.inj hrest).2⟩

/-- The first lexeme of a text is told by the text. -/
theorem lexeme_unique {piece piece' : Piece} {pieces pieces' : List Piece}
    (hproper : Proper (piece :: pieces)) (hproper' : Proper (piece' :: pieces'))
    (h : piecesText (piece :: pieces) = piecesText (piece' :: pieces')) :
    piece.lexeme = piece'.lexeme ∧
      piece.gap ++ piecesText pieces = piece'.gap ++ piecesText pieces' := by
  have hlexeme := (proper_cons.1 hproper).1
  have hlexeme' := (proper_cons.1 hproper').1
  rw [piecesText_cons, piecesText_cons] at h
  obtain ⟨c, rest, hcons, -, -⟩ := hlexeme.exists_cons
  obtain ⟨c', rest', hcons', -, -⟩ := hlexeme'.exists_cons
  obtain rfl : c = c' := by
    rw [hcons, hcons'] at h
    exact (List.cons.inj h).1
  -- The first character tells whether both are quoted or both are bare.
  by_cases hc : c = '\"'
  · subst hc
    obtain ⟨text, heq, hquote⟩ := (hcons ▸ hlexeme).quoted
    obtain ⟨text', heq', hquote'⟩ := (hcons' ▸ hlexeme').quoted
    rw [hcons, heq, hcons', heq'] at h ⊢
    simp only [List.cons_append, List.append_assoc, List.nil_append, List.cons.injEq,
      true_and] at h
    obtain ⟨rfl, hrest⟩ := quoted_unique hquote hquote' h
    exact ⟨rfl, hrest⟩
  · have hbare : IsBare piece.lexeme := hcons ▸ (hcons ▸ hlexeme).bare hc
    have hbare' : IsBare piece'.lexeme := hcons' ▸ (hcons' ▸ hlexeme').bare hc
    exact eq_of_append_eq h hbare.graphic hbare'.graphic
      (fun _ hc => isGraphic_of_isBlank (hproper.blank_of_bare hbare hc))
      (fun _ hc => isGraphic_of_isBlank (hproper'.blank_of_bare hbare' hc))

private theorem pieces_unique {pieces pieces' : List Piece} (hproper : Proper pieces)
    (hproper' : Proper pieces') (h : piecesText pieces = piecesText pieces') :
    pieces = pieces' := by
  -- The first lexeme is told by the text, then the blanks behind it, and the rest by induction.
  induction pieces generalizing pieces' with
  | nil => exact ((piecesText_eq_nil hproper').1 h.symm).symm
  | cons piece pieces ih =>
    cases pieces' with
    | nil => exact (piecesText_eq_nil hproper).1 h
    | cons piece' pieces' =>
      obtain ⟨hlexeme, hrest⟩ := lexeme_unique hproper hproper' h
      obtain ⟨-, hgap, -, hpieces⟩ := proper_cons.1 hproper
      obtain ⟨-, hgap', -, hpieces'⟩ := proper_cons.1 hproper'
      obtain ⟨hgaps, htext⟩ := eq_of_append_eq hrest hgap hgap' (fun _ => hpieces.not_blank)
        (fun _ => hpieces'.not_blank)
      obtain rfl := ih hpieces hpieces' htext
      obtain ⟨lexeme, gap⟩ := piece
      obtain ⟨lexeme', gap'⟩ := piece'
      obtain rfl : lexeme = lexeme' := hlexeme
      obtain rfl : gap = gap' := hgaps
      rfl

/-- A text can be cut in one way only. -/
theorem Cutting.text_injective : Function.Injective Cutting.text := by
  intro cutting cutting' h
  obtain ⟨lead, pieces, hlead, hproper⟩ := cutting
  obtain ⟨lead', pieces', hlead', hproper'⟩ := cutting'
  obtain ⟨rfl, htext⟩ := eq_of_append_eq h hlead hlead' (fun _ => hproper.not_blank)
    (fun _ => hproper'.not_blank)
  obtain rfl := pieces_unique hproper hproper' htext
  rfl

end Tabletop.Token
