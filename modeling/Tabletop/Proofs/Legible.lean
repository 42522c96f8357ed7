import Tabletop.Proofs.Acceptance
import Tabletop.Proofs.Scanning

/-!
# Tokens that can be read back

A token is legible if its text is a lexeme that stands for it. All tokens that are scanned from a
text are (`legible_of_scan`). Being legible is all that the compiler checks of a token by itself,
but for the numbers and the one word that programs may not use. So a text that is cut into tokens
compiles, or is refused for one of these two reasons, for its conditionals or for its size
(`compile_of_scan`).
-/

namespace Tabletop

/-- What may be wrong with a program that is given as a text. A token that does not hold what it
should, or something that cannot be written into code, is not among it. -/
def CompileError.OfText : CompileError → Prop
  | unmatchedElse _ => True
  | unmatchedThen _ => True
  | duplicateElse _ => True
  | unterminatedIf _ => True
  | reservedWord _ _ => True
  | literalOutOfRange _ _ => True
  | programTooLarge _ => True
  | payloadMismatch _ _ _ => False
  | invalidWordName _ _ => False
  | invalidStringLiteral _ => False

namespace Token

/-! ## Legible tokens -/

/-- The token can be told from its text: that is a lexeme, and stands for what the token holds. -/
structure Legible (token : Token) : Prop where
  lexeme : IsLexeme token.lexeme.toList
  stands : Stands token.lexeme.toList token.kind token.payload

/-- The token of a lexeme is legible. -/
theorem IsOf.legible {location : Location} {lexeme : List Char} {token : Token}
    (h : IsOf (location, lexeme) token) (hlexeme : IsLexeme lexeme) : token.Legible := by
  have htext : token.lexeme.toList = lexeme := by rw [h.lexeme, String.toList_ofList]
  exact ⟨htext ▸ hlexeme, htext ▸ h.stands⟩

private theorem legible_of_placed {location : Location} {pieces : List Piece} {tokens : List Token}
    (hlexemes : ∀ piece ∈ pieces, IsLexeme piece.lexeme)
    (h : List.Forall₂ IsOf (placed location pieces) tokens) : ∀ token ∈ tokens, token.Legible := by
  induction pieces generalizing location tokens with
  | nil =>
    cases h
    simp
  | cons piece pieces ih =>
    rw [List.forall_mem_cons] at hlexemes
    obtain ⟨token, later, hof, hlater, rfl⟩ := List.forall₂_cons_left_iff.1 h
    exact List.forall_mem_cons.2 ⟨hof.legible hlexemes.1, ih hlexemes.2 hlater⟩

/-- Scanned tokens are legible. -/
theorem legible_of_scan {path source : String} {tokens : List Token}
    (h : scan path source = .ok tokens) : ∀ token ∈ tokens, token.Legible := by
  obtain ⟨cutting, -, hgives⟩ := scan_eq_ok.1 h
  exact legible_of_placed cutting.proper.lexemes hgives

/-! ## What a legible token holds -/

private theorem isName_of_graphic {text : List Char} (h : ∀ c ∈ text, isGraphic c = true) :
    IsName (String.ofList text) := by
  intro c hc
  rw [String.toList_ofList] at hc
  have hgraphic := h c hc
  simp only [isGraphic, Bool.and_eq_true, decide_eq_true_eq, Char.le_def,
    UInt32.le_iff_toNat_le] at hgraphic
  have hhigh : '~'.val.toNat = 126 := rfl
  have hcode : c.toNat = c.val.toNat := rfl
  refine ⟨by omega, ?_⟩
  rintro rfl
  exact absurd hgraphic.1 (by decide)

section Contents

variable {token : Token}

theorem Legible.fitting (h : token.Legible) : token.Fitting := by
  obtain ⟨location, kind, payload, lexeme⟩ := token
  have hstands : Stands lexeme.toList kind payload := h.stands
  cases hstands <;> trivial

/-- A legible string holds no NUL. -/
theorem Legible.zero_not_mem (h : token.Legible) {s : String} (hkind : token.kind = .string)
    (hpayload : token.payload = .text s) : '\x00' ∉ s.toList := by
  obtain ⟨hlexeme, hstands⟩ := h
  rw [hkind, hpayload] at hstands
  generalize token.lexeme.toList = lexeme at hlexeme hstands
  cases hstands with
  | @string text heq =>
    subst heq
    obtain ⟨text', heq, hinside⟩ := hlexeme.quoted
    obtain rfl := List.append_cancel_right (List.cons.inj heq).2
    rw [String.toList_ofList]
    intro hzero
    exact absurd (hinside _ hzero) (by decide)

/-- The name of a legible word is its lexeme. -/
theorem Legible.isBare (h : token.Legible) {name : String} (hword : token.Is name) :
    IsBare name.toList := by
  have hstands := h.stands
  rw [hword.1, hword.2] at hstands
  generalize token.lexeme.toList = lexeme at hstands
  cases hstands with
  | word hbare => rwa [String.toList_ofList]

/-- A legible word can be written into code. -/
theorem Legible.isName (h : token.Legible) {name : String} (hword : token.Is name) :
    name ≠ "" ∧ IsName name := by
  have hbare := h.isBare hword
  constructor
  · rintro rfl
    exact hbare.nonempty rfl
  · rw [← String.ofList_toList (s := name)]
    exact isName_of_graphic hbare.graphic

/-- What is wrong with a legible token by itself is the word or the number. -/
theorem Fault.ofText {e : CompileError} (hfault : token.Fault e) (h : token.Legible) :
    e.OfText := by
  cases hfault with
  | payload hfitting => exact absurd h.fitting hfitting
  | string hkind hpayload hzero => exact absurd hzero (h.zero_not_mem hkind hpayload)
  | name hword _ _ hinvalid =>
    obtain ⟨hnonempty, hname⟩ := h.isName hword
    exact (hinvalid.elim hnonempty (absurd hname)).elim
  | number | reserved => exact trivial

end Contents

end Token

/-! ## Compiling legible tokens -/

private theorem Offends.ofText {before : List Token} {token : Token} {e : CompileError}
    (hoffends : Offends before token e) (h : token.Legible) : e.OfText := by
  cases hoffends with
  | fault hfault => exact hfault.ofText h
  | unmatchedElse | unmatchedThen | duplicateElse | elseTooLarge | thenTooLarge => exact trivial

private theorem FirstError.ofText {tokens : List Token} {e : CompileError}
    (hfirst : FirstError tokens e)
    (h : ∀ token ∈ tokens, token.Legible) : e.OfText := by
  rcases hfirst with ⟨before, token, rest, rfl, -, hoffends⟩ | ⟨-, frame, outer, -, rfl⟩
  · exact hoffends.ofText (h token (by simp))
  · exact trivial

/-- Tokens that are scanned from a text compile, or are refused because of a conditional that is not
matched, the word that programs may not use, a number beyond a byte, or a target out of reach. The
compiler finds no token that does not hold what it should, and no name or string that cannot be
written into code. -/
theorem compile_of_scan {path source : String} {tokens : List Token}
    (h : Token.scan path source = .ok tokens) :
    (∃ code, compile tokens = .ok code) ∨ ∃ e, compile tokens = .error e ∧ e.OfText := by
  cases hcompile : compile tokens with
  | ok code => exact .inl ⟨code, rfl⟩
  | error e =>
    have hfirst := Program.ofTokens_eq_error.1 (compile_eq_error.1 hcompile)
    exact .inr ⟨e, rfl, hfirst.ofText (Token.legible_of_scan h)⟩

/-- A string with a character beyond ASCII and a tab, a word of the first and the last visible
character, and the word that programs may not use. -/
theorem compile_of_scan_reserved :
    let tokens : List Token := [⟨⟨"p", 1, 1⟩, .string, .text "é\t", "\"é\t\""⟩,
      ⟨⟨"p", 1, 5⟩, .word, .text "!~", "!~"⟩, ⟨⟨"p", 1, 8⟩, .word, .text "JMP", "JMP"⟩]
    Token.scan "p" "\"é\t\"!~ JMP" = .ok tokens ∧
      ((∃ code, compile tokens = .ok code) ∨ ∃ e, compile tokens = .error e ∧ e.OfText) := by
  intro tokens
  have hscan : Token.scan "p" "\"é\t\"!~ JMP" = .ok tokens := by decide +kernel
  exact ⟨hscan, compile_of_scan hscan⟩

end Tabletop
