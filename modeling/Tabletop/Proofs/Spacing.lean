import Tabletop.Proofs.Legible

/-!
# What is written is read back

Things are written one after the other, with blanks between them (`Spacing`). If each of them is
written as a legible token is, then scanning the text gives these tokens back, wherever they stand
now (`scan_spacing`). This holds of the tokens that are made for given contents (`Token.Writable`),
whatever the blanks, and of those that any text is cut into.
-/

namespace Tabletop

open Token (Blanks)

/-! ## Spacings -/

/-- Things to be written one after the other: the blanks in front, and each thing with the blanks
behind it. Only behind the last one there may be none. -/
structure Spacing (α : Type) where
  lead : List Char
  parts : List (α × List Char)
  lead_blank : Blanks lead
  gaps_blank : ∀ part ∈ parts, Blanks part.2
  apart : ∀ part ∈ parts.dropLast, part.2 ≠ []

namespace Spacing

variable {α : Type}

/-- What is written. -/
def items (spacing : Spacing α) : List α := spacing.parts.map Prod.fst

/-- The pieces of the text, where `spell` says how a thing is written. -/
def pieces (spell : α → String) (parts : List (α × List Char)) : List Token.Piece :=
  parts.map fun part => ⟨(spell part.1).toList, part.2⟩

/-- The text, where `spell` says how a thing is written. -/
def text (spell : α → String) (spacing : Spacing α) : String :=
  String.ofList (spacing.lead ++ Token.piecesText (pieces spell spacing.parts))

/-- If every thing is written as a lexeme, then the spacing shows how its text is cut. -/
def cutting (spell : α → String) (spacing : Spacing α)
    (h : ∀ item ∈ spacing.items, Token.IsLexeme (spell item).toList) : Token.Cutting where
  lead := spacing.lead
  pieces := pieces spell spacing.parts
  lead_blank := spacing.lead_blank
  proper := by
    refine ⟨?_, ?_, ?_⟩
    · intro piece hpiece
      obtain ⟨part, hpart, rfl⟩ := List.mem_map.1 hpiece
      exact h part.1 (List.mem_map_of_mem hpart)
    · intro piece hpiece
      obtain ⟨part, hpart, rfl⟩ := List.mem_map.1 hpiece
      exact spacing.gaps_blank part hpart
    · intro piece hpiece hnil
      rw [pieces, ← List.map_dropLast] at hpiece
      obtain ⟨part, hpart, rfl⟩ := List.mem_map.1 hpiece
      exact absurd hnil (spacing.apart part hpart)

/-! ## Single spaces -/

/-- Each thing but the last with a space behind it. -/
def spaced : List α → List (α × List Char)
  | [] => []
  | [item] => [(item, [])]
  | item :: next :: rest => (item, [' ']) :: spaced (next :: rest)

private theorem map_fst_spaced (items : List α) : (spaced items).map Prod.fst = items := by
  fun_induction spaced items with
  | case1 => rfl
  | case2 item => rfl
  | case3 item next rest ih => rw [List.map_cons, ih]

private theorem spaced_ne_nil (item : α) (rest : List α) : spaced (item :: rest) ≠ [] := by
  cases rest <;> simp [spaced]

/-- Things with single spaces between them. -/
def single (items : List α) : Spacing α where
  lead := []
  parts := spaced items
  lead_blank := by simp [Blanks]
  gaps_blank := by
    fun_induction spaced items with
    | case1 => simp
    | case2 item => simp [Blanks]
    | case3 item next rest ih =>
      refine List.forall_mem_cons.2 ⟨?_, ih⟩
      intro c hc
      rw [List.mem_singleton] at hc
      subst hc
      decide
  apart := by
    fun_induction spaced items with
    | case1 => simp
    | case2 item => simp
    | case3 item next rest ih =>
      rw [List.dropLast_cons_of_ne_nil (spaced_ne_nil next rest)]
      exact List.forall_mem_cons.2 ⟨by simp, ih⟩

theorem items_single (items : List α) : (single items).items = items := map_fst_spaced items

private theorem text_single (spell : α → String) (items : List α) :
    (single items).text spell = " ".intercalate (items.map spell) := by
  change String.ofList (Token.piecesText (pieces spell (spaced items))) = _
  fun_induction spaced items with
  | case1 => rfl
  | case2 item => simp [pieces, Token.piecesText, Token.Piece.text]
  | case3 item next rest ih =>
    rw [List.map_cons, List.map_cons, String.intercalate_cons_cons, ← List.map_cons, ← ih, pieces,
      List.map_cons, Token.piecesText_cons]
    apply String.toList_injective
    simp [pieces]

end Spacing

namespace Token

open Text (isDigit decimalDigits decimalValue)

/-! ## Legible tokens are read back -/

/-- The same tokens in the same order, wherever they stand. -/
def Same (tokens tokens' : List Token) : Prop :=
  List.Forall₂ (fun token token' => token.same token' = true) tokens tokens'

theorem same_iff {a b : Token} :
    a.same b = true ↔ a.kind = b.kind ∧ a.payload = b.payload ∧ a.lexeme = b.lexeme := by
  simp [same, and_assoc]

/-- What is scanned for the lexeme of a legible token is this token. -/
theorem IsOf.same {location : Location} {token scanned : Token}
    (h : IsOf (location, token.lexeme.toList) scanned) (hlegible : token.Legible) :
    scanned.same token = true := by
  obtain ⟨hkind, hpayload⟩ := h.stands.unique hlegible.stands
  refine same_iff.2 ⟨hkind, hpayload, ?_⟩
  rw [h.lexeme, String.ofList_toList]

variable {α : Type}

/-- The thing is written as a legible token. -/
def Renders (spell : α → String) (token : α → Token) (item : α) : Prop :=
  (token item).Legible ∧ (token item).lexeme = spell item

private theorem same_of_placed {spell : α → String} {token : α → Token}
    {parts : List (α × List Char)}
    (h : ∀ part ∈ parts, Renders spell token part.1) {location : Location} {tokens : List Token}
    (hplaced : List.Forall₂ IsOf (placed location (Spacing.pieces spell parts)) tokens) :
    Same tokens (parts.map fun part => token part.1) := by
  -- The places of the lexemes differ from those of the tokens, so they are left open.
  induction parts generalizing location tokens with
  | nil =>
    cases hplaced
    exact .nil
  | cons part parts ih =>
    obtain ⟨⟨hlegible, hlexeme⟩, hparts⟩ := List.forall_mem_cons.1 h
    obtain ⟨scanned, later, hof, hlater, rfl⟩ := List.forall₂_cons_left_iff.1 hplaced
    refine .cons ?_ (ih hparts hlater)
    have hspelled : IsOf (location, (spell part.1).toList) scanned := hof
    rw [← hlexeme] at hspelled
    exact hspelled.same hlegible

/-- Things that are written as legible tokens are scanned as these. -/
theorem scan_spacing (path : String) (spacing : Spacing α) (spell : α → String)
    (token : α → Token) (h : ∀ item ∈ spacing.items, Renders spell token item) :
    ∃ tokens, scan path (spacing.text spell) = .ok tokens ∧
      Same tokens (spacing.items.map token) := by
  have hlexemes : ∀ item ∈ spacing.items, IsLexeme (spell item).toList := by
    intro item hitem
    obtain ⟨hlegible, hlexeme⟩ := h item hitem
    exact hlexeme ▸ hlegible.lexeme
  let cutting := spacing.cutting spell hlexemes
  obtain ⟨tokens, hgives⟩ := exists_isOf_placed cutting.proper.lexemes
    ((Location.start path).afterAll cutting.lead)
  refine ⟨tokens, scan_eq_ok.2 ⟨cutting, ?_, hgives⟩, ?_⟩
  · rw [Spacing.text, String.toList_ofList]
    rfl
  · rw [Spacing.items, List.map_map]
    exact same_of_placed (fun part hpart => h part.1 (List.mem_map_of_mem hpart)) hgives

theorem scan_legible (path : String) (spacing : Spacing Token)
    (h : ∀ token ∈ spacing.items, token.Legible) :
    ∃ tokens, scan path (spacing.text lexeme) = .ok tokens ∧ Same tokens spacing.items := by
  have hscan := scan_spacing path spacing lexeme id fun token htoken => ⟨h token htoken, rfl⟩
  rwa [List.map_id] at hscan

/-! ## Tokens for given contents -/

/-- A token for given contents that can be written down: a string without double quotes and NUL, or
a word that is not read as a number, a direction or a truth value. All others can. -/
inductive Writable : Token → Prop
  | number (n : UInt64) (location : Location) : Writable (ofNumber n location)
  | direction (d : Direction) (location : Location) : Writable (ofDirection d location)
  | bool (b : Bool) (location : Location) : Writable (ofBool b location)
  | string {s : String} (location : Location) : '\"' ∉ s.toList → '\x00' ∉ s.toList →
      Writable (ofString s location)
  | word {name : String} (location : Location) : IsRun name.toList →
      (¬ ∀ c ∈ name.toList, isDigit c = true) → (∀ d : Direction, name ≠ d.name) →
      (∀ b, name ≠ boolName b) → Writable (ofWord name location)

theorem IsRun.isBare {text : List Char} (h : IsRun text)
    (hdigits : ¬ ∀ c ∈ text, isDigit c = true) : IsBare text :=
  ⟨h, fun hall => absurd hall hdigits⟩

theorem isDigit_of_mem_decimalDigits {n : Nat} {c : Char} (h : c ∈ decimalDigits n) :
    isDigit c = true :=
  Nat.isDigit_of_mem_toDigits (by decide) (by decide) h

private theorem numeralValue_decimalDigits (n : Nat) : numeralValue (decimalDigits n) = n := by
  rw [← decimalValue_eq]
  exact Nat.ofDigitChars_toDigits (by decide) (by decide)

theorem isGraphic_of_isDigit {c : Char} (h : isDigit c = true) : isGraphic c = true := by
  simp only [isDigit, isGraphic, Bool.and_eq_true, decide_eq_true_eq] at h ⊢
  exact ⟨Char.le_trans (by decide) h.1, Char.le_trans h.2 (by decide)⟩

private theorem decimalDigits_isBare {n : Nat} (h : n < 2 ^ 64) : IsBare (decimalDigits n) where
  nonempty := Nat.toDigits_ne_nil
  graphic c hc := isGraphic_of_isDigit (isDigit_of_mem_decimalDigits hc)
  unquoted hhead := by
    have hquote := isDigit_of_mem_decimalDigits (List.mem_of_mem_head? hhead)
    exact absurd hquote (by decide)
  fits _ := by rwa [numeralValue_decimalDigits]

private theorem isBare_of_spelling {name : List Char} (hnonempty : name ≠ [])
    (hgraphic : name.all isGraphic = true)
    (hspelling : name.all isDigit = false ∧ name.head? ≠ some '\"') : IsBare name := by
  refine IsRun.isBare ⟨hnonempty, List.all_eq_true.1 hgraphic, hspelling.2⟩ ?_
  rw [← List.all_eq_true, hspelling.1]
  decide

private theorem direction_isBare (d : Direction) : IsBare d.name.toList :=
  isBare_of_spelling (by cases d <;> decide) (by cases d <;> decide)
    (direction_spelling String.ofList_toList)

private theorem bool_isBare (b : Bool) : IsBare (boolName b).toList :=
  isBare_of_spelling (by cases b <;> decide) (by cases b <;> decide)
    (bool_spelling String.ofList_toList)

/-- Tokens that can be written down are legible. -/
theorem Writable.legible {token : Token} (h : token.Writable) : token.Legible := by
  cases h with
  | number n location =>
    have hlexeme : (ofNumber n location).lexeme.toList = decimalDigits n.toNat :=
      String.toList_ofList
    have hbare : IsBare (decimalDigits n.toNat) := decimalDigits_isBare n.toNat_lt
    refine ⟨hlexeme ▸ .inr hbare, hlexeme ▸ .number hbare ?_ ?_⟩
    · exact fun c hc => isDigit_of_mem_decimalDigits hc
    · rw [numeralValue_decimalDigits]
  | direction d location => exact ⟨.inr (direction_isBare d), .direction String.ofList_toList⟩
  | bool b location => exact ⟨.inr (bool_isBare b), .bool String.ofList_toList⟩
  | @string s location hquote hzero =>
    have hlexeme : (ofString s location).lexeme.toList = '\"' :: (s.toList ++ ['\"']) := by
      simp [ofString]
    have hinside : ∀ c ∈ s.toList, isInside c = true := by
      intro c hc
      have hnot : c ≠ '\"' ∧ c ≠ '\x00' := ⟨fun h => hquote (h ▸ hc), fun h => hzero (h ▸ hc)⟩
      simpa [isInside] using hnot
    have hpayload : (ofString s location).payload = .text (.ofList s.toList) := by
      rw [String.ofList_toList]
      rfl
    refine ⟨hlexeme ▸ .inl ⟨s.toList, rfl, hinside⟩, ?_⟩
    rw [hlexeme, hpayload]
    exact .string rfl
  | @word name location hrun hdigits hdirection hbool =>
    have hbare := hrun.isBare hdigits
    have hpayload : (ofWord name location).payload = .text (.ofList name.toList) := by
      rw [String.ofList_toList]
      rfl
    refine ⟨.inr hbare, ?_⟩
    rw [hpayload]
    refine .word hbare hdigits ?_ ?_ <;> rwa [String.ofList_toList]

/-- Scanning undoes writing. Tokens that can be written down are scanned from their lexemes, with
any blanks in front and behind and one blank or more between them. And the tokens of any text are
scanned again from their lexemes with single spaces between them. -/
theorem scan_undoes_writing :
    (∀ path (spacing : Spacing Token), (∀ token ∈ spacing.items, token.Writable) →
      ∃ tokens, scan path (spacing.text lexeme) = .ok tokens ∧ Same tokens spacing.items) ∧
    (∀ path source tokens, scan path source = .ok tokens →
      ∀ path', ∃ tokens', scan path' (" ".intercalate (tokens.map lexeme)) = .ok tokens' ∧
        Same tokens' tokens) := by
  refine ⟨fun path spacing h => ?_, fun path source tokens h path' => ?_⟩
  · exact scan_legible path spacing fun token htoken => (h token htoken).legible
  · -- Scanned tokens are legible, wherever they came from.
    have hsingle := scan_legible path' (.single tokens)
    rw [Spacing.items_single, Spacing.text_single] at hsingle
    exact hsingle (legible_of_scan h)

/-- The largest number, a string with a line break and digits in it, a word that ends in a quote and
a truth value, with blanks beyond ASCII. -/
theorem scan_undoes_writing_mixed :
    let place : Location := ⟨"", 0, 0⟩
    let tokens := [ofNumber 18446744073709551615 place, ofString "a\n 1" place,
      ofWord "1\"" place, ofBool true place]
    let source := "\n18446744073709551615\u3000\"a\n 1\"\r\t1\" TRUE "
    ∃ spacing : Spacing Token, spacing.items = tokens ∧ spacing.text lexeme = source ∧
      (∀ token ∈ spacing.items, token.Writable) ∧
      ∃ scanned, scan "p" source = .ok scanned ∧ Same scanned tokens ∧
        ∃ again, scan "q" (" ".intercalate (scanned.map lexeme)) = .ok again ∧
          Same again scanned := by
  intro place tokens source
  let parts := tokens.zip [['\u3000'], ['\r', '\t'], [' '], [' ']]
  have hgaps : (parts.all fun part => part.2.all Text.isBlank) = true := by decide +kernel
  let spacing : Spacing Token :=
    { lead := ['\n']
      parts := parts
      lead_blank := List.all_eq_true.1 (by decide)
      gaps_blank := fun part hpart => List.all_eq_true.1 (List.all_eq_true.1 hgaps part hpart)
      apart := by simp [parts, tokens] }
  have htext : spacing.text lexeme = source := by
    change String.ofList ('\n' :: piecesText (Spacing.pieces lexeme parts)) = source
    decide +kernel
  have hword : IsRun "1\"".toList :=
    ⟨by decide, List.all_eq_true.1 (by decide), by decide⟩
  have hdigits : ¬ ∀ c ∈ "1\"".toList, isDigit c = true := by
    rw [← List.all_eq_true]
    decide
  have hwritable : ∀ token ∈ spacing.items, token.Writable := by
    rintro token (_ | ⟨_, _ | ⟨_, _ | ⟨_, _ | ⟨_, ⟨⟩⟩⟩⟩⟩)
    · exact .number _ _
    · exact .string _ (by decide) (by decide)
    · exact .word _ hword hdigits (fun d => by cases d <;> decide) (fun b => by cases b <;> decide)
    · exact .bool _ _
  obtain ⟨scanned, hscan, hsame⟩ := scan_undoes_writing.1 "p" spacing hwritable
  rw [htext] at hscan
  exact ⟨spacing, rfl, htext, hwritable, scanned, hscan, hsame,
    scan_undoes_writing.2 "p" source scanned hscan "q"⟩

end Token

end Tabletop
