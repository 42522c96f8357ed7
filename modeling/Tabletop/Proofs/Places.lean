import Mathlib.Data.List.Induction
import Tabletop.Proofs.Acceptance
import Tabletop.Proofs.Scanning

/-!
# Places in a text

The scanner keeps the place of the next character and moves it on with every character that it
reads. Here the place of a character is told from the text in front of it, by counting
(`Location.behind`). The scanner agrees with this at every step (`Scan.Reached.location`). A text
that it refuses has one of four faults, each reported at a place of its own (`refused_of_scan`). So
each token stands where its first character does, and so do strings and numbers that cannot be
scanned (`locations_exact`). A character that no text can have there is reported at its own place,
except inside a string, where it is reported one place too late (`invalidCharacter_location`).
-/

namespace Tabletop

namespace Location

/-- The place of the character behind `before`, which is the beginning of the text named `path`. The
newlines in front of it are counted for the line, the characters since the last of these for the
column. -/
def behind (path : String) (before : List Char) : Location where
  path := path
  line := 1 + before.count '\n'
  column := 1 + (before.reverse.takeWhile (· != '\n')).length

private theorem behind_append_singleton (path : String) (before : List Char) (c : Char) :
    behind path (before ++ [c]) = (behind path before).after c := by
  by_cases hc : c = '\n'
  · simp [behind, after, hc, Nat.add_assoc]
  · simp [behind, after, hc, Nat.add_assoc]

/-- Going through a text character by character leads to the place behind it. -/
theorem afterAll_start (path : String) (text : List Char) :
    (start path).afterAll text = behind path text := by
  induction text using List.reverseRecOn with
  | nil => rfl
  | append_singleton text c ih =>
    rw [afterAll_append, ih, behind_append_singleton]
    rfl

theorem afterAll_behind (path : String) (before text : List Char) :
    (behind path before).afterAll text = behind path (before ++ text) := by
  rw [← afterAll_start, ← afterAll_append, afterAll_start]

end Location

namespace Token

open Text (isBlank isDigit)

/-! ## Between two lexemes -/

/-- The piece is complete by itself, so that another one may follow. -/
structure Piece.Complete (piece : Piece) : Prop where
  lexeme : IsLexeme piece.lexeme
  gap : Blanks piece.gap
  apart : piece.gap = [] → IsQuoted piece.lexeme

/-- Complete pieces may follow one another. -/
theorem proper_of_complete {pieces : List Piece} (h : ∀ piece ∈ pieces, piece.Complete) :
    Proper pieces where
  lexemes piece hmem := (h piece hmem).lexeme
  gaps piece hmem := (h piece hmem).gap
  apart piece hmem := (h piece (List.dropLast_subset _ hmem)).apart

/-- The beginning `before` of the text named `path` stops where a lexeme may begin, and `tokens` are
its tokens. -/
def StopsBetween (path : String) (before : List Char) (tokens : List Token) : Prop :=
  ∃ cutting : Cutting, cutting.text = before ∧ (∀ piece ∈ cutting.pieces, piece.Complete) ∧
    cutting.Gives (.start path) tokens

private theorem placed_append (location : Location) (front back : List Piece) :
    placed location (front ++ back) =
      placed location front ++ placed (location.afterAll (piecesText front)) back := by
  induction front generalizing location with
  | nil => rfl
  | cons piece front ih =>
    rw [List.cons_append, placed, placed, ih, ← Location.afterAll_append]
    rfl

private theorem piecesText_append (front back : List Piece) :
    piecesText (front ++ back) = piecesText front ++ piecesText back :=
  List.flatMap_append

section StopsBetween

variable {path : String} {before : List Char} {tokens : List Token}

private theorem stopsBetween_nil : StopsBetween path [] [] :=
  ⟨⟨[], [], by simp [Blanks], proper_nil⟩, rfl, by simp, .nil⟩

/-- Such a text can be scanned as it is. -/
theorem StopsBetween.scan_eq_ok (h : StopsBetween path before tokens) :
    scan path (String.ofList before) = .ok tokens := by
  obtain ⟨cutting, htext, -, hgives⟩ := h
  refine Token.scan_eq_ok.2 ⟨cutting, ?_, hgives⟩
  rw [htext, String.toList_ofList]

/-- A complete lexeme behind the text is one more token. -/
theorem StopsBetween.concat (h : StopsBetween path before tokens) {piece : Piece} {token : Token}
    (hpiece : piece.Complete) (hof : IsOf (.behind path before, piece.lexeme) token) :
    StopsBetween path (before ++ piece.text) (tokens ++ [token]) := by
  obtain ⟨⟨lead, pieces, hlead, hproper⟩, rfl, hpieces, hgives⟩ := h
  have hcomplete : ∀ p ∈ pieces ++ [piece], p.Complete :=
    List.forall_mem_append.2 ⟨hpieces, by simpa using hpiece⟩
  refine ⟨⟨lead, pieces ++ [piece], hlead, proper_of_complete hcomplete⟩, ?_, hcomplete, ?_⟩
  · simp [Cutting.text, piecesText]
  · rw [Cutting.Gives, placed_append]
    refine List.rel_append hgives (.cons ?_ .nil)
    rwa [← Location.afterAll_append, Location.afterAll_start]

/-- A blank behind the text belongs to the gap behind the last lexeme. -/
theorem StopsBetween.blank (h : StopsBetween path before tokens) {c : Char}
    (hc : isBlank c = true) : StopsBetween path (before ++ [c]) tokens := by
  obtain ⟨⟨lead, pieces, hlead, hproper⟩, rfl, hpieces, hgives⟩ := h
  have hsingle : Blanks [c] := by simpa [Blanks] using hc
  rcases List.eq_nil_or_concat' pieces with rfl | ⟨front, ⟨lexeme, gap⟩, rfl⟩
  · refine ⟨⟨lead ++ [c], [], ?_, proper_nil⟩, ?_, hpieces, ?_⟩
    · exact List.forall_mem_append.2 ⟨hlead, hsingle⟩
    · simp [Cutting.text, piecesText]
    · exact hgives
  · obtain ⟨hfront, hlast⟩ := List.forall_mem_append.1 hpieces
    have hpiece : Piece.Complete ⟨lexeme, gap⟩ := hlast _ (by simp)
    have hlonger : Piece.Complete ⟨lexeme, gap ++ [c]⟩ :=
      ⟨hpiece.lexeme, List.forall_mem_append.2 ⟨hpiece.gap, hsingle⟩, by simp⟩
    have hcomplete : ∀ p ∈ front ++ [⟨lexeme, gap ++ [c]⟩], p.Complete :=
      List.forall_mem_append.2 ⟨hfront, by simpa using hlonger⟩
    refine ⟨⟨lead, _, hlead, proper_of_complete hcomplete⟩, ?_, hcomplete, ?_⟩
    · simp [Cutting.text, piecesText, Piece.text]
    · -- The places of lexemes do not depend on the gap behind the last one.
      rw [Cutting.Gives, placed_append] at hgives ⊢
      exact hgives

end StopsBetween

/-! ## The machine -/

namespace Scan

/-- What a step comes to. -/
inductive Turns (c : Char) : Scan → Except ScanError Scan → Prop
  | skip {location : Location} {done : List Token} : isBlank c = true →
      Turns c ⟨.between, location, done⟩ (.ok ⟨.between, location.after c, done⟩)
  | openQuoted {location : Location} {done : List Token} : c = '\"' →
      Turns c ⟨.between, location, done⟩ (.ok ⟨.quoted location [], location.after c, done⟩)
  | openBare {location : Location} {done : List Token} : isGraphic c = true →
      Turns c ⟨.between, location, done⟩ (.ok ⟨.bare location [c], location.after c, done⟩)
  | strayBetween {location : Location} {done : List Token} : isBlank c = false →
      isGraphic c = false →
      Turns c ⟨.between, location, done⟩ (.error (.invalidCharacter location c))
  | closeBare {start location : Location} {text : List Char} {done : List Token} {token : Token} :
      isBlank c = true → ofBare start text.reverse = .ok token →
      Turns c ⟨.bare start text, location, done⟩ (.ok ⟨.between, location.after c, token :: done⟩)
  | refuseBare {start location : Location} {text : List Char} {done : List Token} {e : ScanError} :
      isBlank c = true → ofBare start text.reverse = .error e →
      Turns c ⟨.bare start text, location, done⟩ (.error e)
  | growBare {start location : Location} {text : List Char} {done : List Token} :
      isGraphic c = true →
      Turns c ⟨.bare start text, location, done⟩
        (.ok ⟨.bare start (c :: text), location.after c, done⟩)
  | strayBare {start location : Location} {text : List Char} {done : List Token} :
      isBlank c = false → isGraphic c = false →
      Turns c ⟨.bare start text, location, done⟩ (.error (.invalidCharacter location c))
  | closeQuoted {start location : Location} {text : List Char} {done : List Token} : c = '\"' →
      Turns c ⟨.quoted start text, location, done⟩
        (.ok ⟨.between, location.after c, ofString (String.ofList text.reverse) start :: done⟩)
  | growQuoted {start location : Location} {text : List Char} {done : List Token} :
      isInside c = true →
      Turns c ⟨.quoted start text, location, done⟩
        (.ok ⟨.quoted start (c :: text), location.after c, done⟩)
  | strayQuoted {start location : Location} {text : List Char} {done : List Token} : c = '\x00' →
      Turns c ⟨.quoted start text, location, done⟩ (.error (.invalidCharacter (location.after c) c))

private theorem step_turns (scan : Scan) (c : Char) : Turns c scan (scan.step c) := by
  obtain ⟨mode, location, done⟩ := scan
  cases mode with
  | between =>
    simp only [step]
    split_ifs with hblank hquote hgraphic
    · exact .skip hblank
    · exact .openQuoted hquote
    · exact .openBare hgraphic
    · exact .strayBetween (by simpa using hblank) (by simpa using hgraphic)
  | bare start text =>
    simp only [step]
    split_ifs with hblank hgraphic
    · cases htoken : ofBare start text.reverse with
      | ok token => exact .closeBare hblank htoken
      | error e => exact .refuseBare hblank htoken
    · exact .growBare hgraphic
    · exact .strayBare (by simpa using hblank) (by simpa using hgraphic)
  | quoted start text =>
    simp only [step]
    split_ifs with hquote hzero
    · exact .closeQuoted hquote
    · exact .strayQuoted hzero
    · exact .growQuoted (by simp [isInside, hquote, hzero])

/-- The machine can be in this state when it has read `before`: the tokens that are finished are
those of the text in front of the open one. -/
structure Reached (path : String) (before : List Char) (scan : Scan) : Prop where
  sound : scan.Sound
  finished : ∃ front, before = front ++ scan.opened ∧ scan.origin = .behind path front ∧
    StopsBetween path front scan.tokens.reverse

section Reached

variable {path : String} {before : List Char} {scan next : Scan} {c : Char}

private theorem start_reached : (Scan.start path).Reached path [] :=
  ⟨⟨trivial, rfl⟩, [], rfl, rfl, stopsBetween_nil⟩

/-- The machine knows the place of the next character. -/
theorem Reached.location (h : scan.Reached path before) : scan.location = .behind path before := by
  obtain ⟨front, rfl, horigin, -⟩ := h.finished
  rw [h.sound.location, horigin, Location.afterAll_behind]

/-- Between two lexemes the machine has nothing open. -/
theorem between_reached {done : List Token} (h : StopsBetween path before done.reverse) :
    Reached path before ⟨.between, .behind path before, done⟩ :=
  ⟨⟨trivial, rfl⟩, before, (List.append_nil _).symm, rfl, h⟩

theorem Reached.step (h : scan.Reached path before) (hstep : scan.step c = .ok next) :
    next.Reached path (before ++ [c]) := by
  have hmoves := step_moves h.sound c
  have hturns := step_turns scan c
  have hopen := h.sound.opened
  have hnext : scan.location.after c = .behind path (before ++ [c]) := by
    rw [h.location, Location.behind_append_singleton]
  obtain ⟨front, rfl, horigin, hfront⟩ := h.finished
  rw [hstep] at hmoves hturns
  cases hmoves with
  | ok hsound =>
    cases hturns with
    | skip hblank =>
      rw [hnext]
      refine between_reached ?_
      rw [opened, List.append_nil]
      exact hfront.blank hblank
    | openQuoted hquote => exact ⟨hsound, front, by simp [opened, hquote], horigin, hfront⟩
    | openBare hgraphic => exact ⟨hsound, front, by simp [opened], horigin, hfront⟩
    | @closeBare start location text done token hblank htoken =>
      obtain rfl : start = .behind path front := horigin
      obtain ⟨hbare, hof⟩ := (ofBare_eq_ok hopen).1 htoken
      have hpiece : Piece.Complete ⟨text.reverse, [c]⟩ :=
        ⟨.inr hbare, by simpa [Blanks] using hblank, by simp⟩
      rw [hnext]
      refine between_reached ?_
      rw [List.append_assoc, List.reverse_cons]
      exact hfront.concat hpiece hof
    | growBare hgraphic => exact ⟨hsound, front, by simp [opened], horigin, hfront⟩
    | @closeQuoted start location text done hquote =>
      obtain rfl : start = .behind path front := horigin
      subst hquote
      have hquoted : IsQuoted ('\"' :: (text.reverse ++ ['\"'])) := ⟨text.reverse, rfl, hopen⟩
      have hpiece : Piece.Complete ⟨'\"' :: (text.reverse ++ ['\"']), []⟩ :=
        ⟨.inl hquoted, by simp [Blanks], fun _ => hquoted⟩
      have hmore := hfront.concat hpiece (isOf_quoted.2 rfl)
      rw [Piece.text, List.append_nil] at hmore
      rw [hnext]
      refine between_reached ?_
      rw [List.append_assoc, List.reverse_cons]
      exact hmore
    | growQuoted hinside => exact ⟨hsound, front, by simp [opened], horigin, hfront⟩

private theorem reached_of_foldlM (h : before.foldlM Scan.step (Scan.start path) = .ok scan) :
    scan.Reached path before :=
  foldlM_ok_induction (P := fun scan before => scan.Reached path before)
    (fun _ _ _ _ hreached hstep => hreached.step hstep) start_reached h

end Reached

end Scan

/-! ## Texts that cannot be scanned -/

/-- The beginning `before` of the text named `path` stops between two lexemes or in a bare run. -/
def StopsInRun (path : String) (before : List Char) : Prop :=
  ∃ front run tokens, before = front ++ run ∧ StopsBetween path front tokens ∧
    (∀ c ∈ run, isGraphic c = true) ∧ run.head? ≠ some '\"'

/-- The beginning `before` of the text named `path` stops in a string. -/
def StopsInString (path : String) (before : List Char) : Prop :=
  ∃ front text tokens, before = front ++ '\"' :: text ∧ StopsBetween path front tokens ∧
    ∀ c ∈ text, isInside c = true

section Errors

variable {path source : String} {before : List Char} {c : Char} {e : ScanError}

/-- A lexeme can be completed to a token. -/
theorem StopsBetween.exists_concat {front : List Char} {tokens : List Token}
    (h : StopsBetween path front tokens) {piece : Piece} (hpiece : piece.Complete) :
    ∃ tokens, scan path (String.ofList (front ++ piece.text)) = .ok tokens := by
  obtain ⟨kind, payload, hstands⟩ := hpiece.lexeme.exists_stands
  exact ⟨_, (h.concat hpiece (isOf_iff.2 ⟨kind, payload, hstands, rfl⟩)).scan_eq_ok⟩

private theorem StopsInRun.exists_ok (h : StopsInRun path before) :
    ∃ more tokens, scan path (String.ofList (before ++ more)) = .ok tokens := by
  obtain ⟨front, run, tokens, rfl, hfront, hrun, hquote⟩ := h
  -- With a letter behind it the run is a word, also if it is empty or has too many digits.
  have hbare : IsBare (run ++ ['X']) := by
    refine ⟨⟨by simp, ?_, ?_⟩, fun hdigits => ?_⟩
    · exact List.forall_mem_append.2 ⟨hrun, by simp; decide⟩
    · cases run with
      | nil => decide
      | cons c run => exact hquote
    · exact absurd (hdigits 'X' (by simp)) (by decide)
  have hpiece : Piece.Complete ⟨run ++ ['X'], [' ']⟩ :=
    ⟨.inr hbare, by simp [Blanks]; decide, by simp⟩
  obtain ⟨tokens, hscan⟩ := hfront.exists_concat hpiece
  refine ⟨['X', ' '], tokens, ?_⟩
  rw [← hscan]
  simp [Piece.text]

private theorem StopsInString.exists_ok (h : StopsInString path before) :
    ∃ more tokens, scan path (String.ofList (before ++ more)) = .ok tokens := by
  obtain ⟨front, text, tokens, rfl, hfront, htext⟩ := h
  have hquoted : IsQuoted ('\"' :: (text ++ ['\"'])) := ⟨text, rfl, htext⟩
  have hpiece : Piece.Complete ⟨'\"' :: (text ++ ['\"']), []⟩ :=
    ⟨.inl hquoted, by simp [Blanks], fun _ => hquoted⟩
  obtain ⟨tokens, hscan⟩ := hfront.exists_concat hpiece
  refine ⟨['\"'], tokens, ?_⟩
  rw [← hscan]
  simp [Piece.text]

/-- Of the runs, only numbers are refused. -/
theorem ofBare_eq_error {location : Location} {text : List Char}
    (h : ofBare location text = .error e) :
    (∀ c ∈ text, isDigit c = true) ∧ e = .invalidNumber location (String.ofList text) := by
  unfold ofBare at h
  by_cases hdigits : text.all isDigit = true
  · rw [if_pos hdigits] at h
    dsimp only at h
    split at h
    · cases h
    · cases h
      exact ⟨List.all_eq_true.1 hdigits, rfl⟩
  · rw [if_neg hdigits] at h
    split at h <;> cases h

private theorem scan_eq_error (h : scan path source = .error e) :
    (∃ before c rest state, source.toList = before ++ c :: rest ∧
      before.foldlM Scan.step (Scan.start path) = .ok state ∧ state.step c = .error e) ∨
    ∃ state, source.toList.foldlM Scan.step (Scan.start path) = .ok state ∧
      state.finish = .error e := by
  unfold scan at h
  cases hfold : source.toList.foldlM Scan.step (Scan.start path) with
  | error e' =>
    rw [hfold] at h
    cases h
    exact .inl (foldlM_eq_error_iff.1 hfold)
  | ok state =>
    rw [hfold] at h
    exact .inr ⟨state, rfl, h⟩

/-- At the end of the text, a number may turn out to be too large, or a string to be open. -/
theorem Scan.finish_eq_error {scan : Scan} (h : scan.finish = .error e) :
    (∃ start text, scan.mode = .bare start text ∧ ofBare start text.reverse = .error e) ∨
      ∃ start text, scan.mode = .quoted start text ∧ e = .unterminatedString start := by
  obtain ⟨mode, location, done⟩ := scan
  cases mode with
  | between => cases h
  | bare start text =>
    refine .inl ⟨start, text, rfl, ?_⟩
    cases htoken : ofBare start text.reverse with
    | ok token => simp [finish, htoken, bind, Except.bind, pure, Except.pure] at h
    | error e' => simpa [finish, htoken, bind, Except.bind] using h
  | quoted start text =>
    cases h
    exact .inr ⟨start, text, rfl, rfl⟩

/-- Once a character is refused, nothing that follows makes up for it. -/
theorem scan_ne_ok {state : Scan} (hfold : before.foldlM Scan.step (Scan.start path) = .ok state)
    (hstep : state.step c = .error e) (more : List Char) (tokens : List Token) :
    scan path (String.ofList (before ++ c :: more)) ≠ .ok tokens := by
  unfold scan
  rw [String.toList_ofList, foldlM_append_of_ok hfold, List.foldlM_cons, hstep]
  intro h
  cases h

/-- Why a text cannot be scanned, and the place at which this is reported. -/
inductive Refused (path : String) : List Char → ScanError → Prop
  | string {before text : List Char} {tokens : List Token} : StopsBetween path before tokens →
      (∀ c ∈ text, isInside c = true) →
      Refused path (before ++ '\"' :: text) (.unterminatedString (.behind path before))
  | number {before digits rest : List Char} {tokens : List Token} :
      StopsBetween path before tokens → IsRun digits → (∀ c ∈ digits, isDigit c = true) →
      (∀ c ∈ rest.head?, isBlank c = true) →
      Refused path (before ++ (digits ++ rest))
        (.invalidNumber (.behind path before) (String.ofList digits))
  | stray {before rest : List Char} {c : Char} : StopsInRun path before → isGraphic c = false →
      isBlank c = false →
      (∀ more tokens, scan path (String.ofList (before ++ c :: more)) ≠ .ok tokens) →
      Refused path (before ++ c :: rest) (.invalidCharacter (.behind path before) c)
  | zero {before rest : List Char} {c : Char} : StopsInString path before → c = '\x00' →
      (∀ more tokens, scan path (String.ofList (before ++ c :: more)) ≠ .ok tokens) →
      Refused path (before ++ c :: rest) (.invalidCharacter (.behind path (before ++ [c])) c)

/-- A run in front of a blank or of nothing is refused only as a number. -/
theorem Refused.of_bare {rest : List Char} {start here : Location} {text : List Char}
    {done : List Token} (h : Scan.Reached path before ⟨.bare start text, here, done⟩)
    (hrest : ∀ c ∈ rest.head?, isBlank c = true) (hrefused : ofBare start text.reverse = .error e) :
    Refused path (before ++ rest) e := by
  obtain ⟨hsound, front, rfl, rfl, hfront⟩ := h
  obtain ⟨hdigits, rfl⟩ := ofBare_eq_error hrefused
  rw [List.append_assoc]
  exact .number hfront hsound.opened hdigits hrest

private theorem refused_of_step {rest : List Char} {state : Scan}
    (hfold : before.foldlM Scan.step (Scan.start path) = .ok state)
    (hstep : state.step c = .error e) : Refused path (before ++ c :: rest) e := by
  have hreached := Scan.reached_of_foldlM hfold
  have hplace := hreached.location
  have hrefused := scan_ne_ok hfold hstep
  have hturns := state.step_turns c
  rw [hstep] at hturns
  obtain ⟨hsound, front, hbefore, -, hfront⟩ := hreached
  have hopen := hsound.opened
  cases hturns with
  | strayBetween hblank hgraphic =>
    subst hplace
    exact .stray ⟨front, [], _, hbefore, hfront, by simp, by simp⟩ hgraphic hblank hrefused
  | refuseBare hblank hnumber =>
    exact .of_bare (Scan.reached_of_foldlM hfold) (by simpa using hblank) hnumber
  | strayBare hblank hgraphic =>
    subst hplace
    have hrun : IsRun _ := hopen
    exact .stray ⟨front, _, _, hbefore, hfront, hrun.graphic, hrun.unquoted⟩ hgraphic hblank
      hrefused
  | strayQuoted hzero =>
    subst hplace
    rw [← Location.behind_append_singleton]
    exact .zero ⟨front, _, _, hbefore, hfront, hopen⟩ hzero hrefused

private theorem refused_of_scan (h : scan path source = .error e) :
    Refused path source.toList e := by
  rcases scan_eq_error h with ⟨before, c, rest, state, hsource, hfold, hstep⟩ |
    ⟨state, hfold, hfinish⟩
  · rw [hsource]
    exact refused_of_step hfold hstep
  · have hreached := Scan.reached_of_foldlM hfold
    obtain ⟨mode, here, done⟩ := state
    rcases Scan.finish_eq_error hfinish with ⟨start, text, rfl, hnumber⟩ | ⟨start, text, rfl, rfl⟩
    · rw [← List.append_nil source.toList]
      exact .of_bare hreached (by simp) hnumber
    · obtain ⟨hsound, front, hsource, rfl, hfront⟩ := hreached
      rw [hsource]
      exact .string hfront hsound.opened

end Errors

/-! ## Tokens and their places -/

section Tokens

variable {location : Location} {pieces front back : List Piece} {piece : Piece}

private theorem Proper.complete_of_append (h : Proper (front ++ piece :: back)) :
    ∀ p ∈ front, p.Complete := by
  intro p hp
  have hmem : p ∈ (front ++ piece :: back).dropLast := by
    rw [List.dropLast_append_of_ne_nil (by simp)]
    exact List.mem_append_left _ hp
  exact ⟨h.lexemes p (List.mem_append_left _ hp), h.gaps p (List.mem_append_left _ hp),
    h.apart p hmem⟩

/-- The lexeme of one of the tokens. -/
theorem exists_piece_of_placed {token : Token} {earlier later : List Token}
    (h : List.Forall₂ IsOf (placed location pieces) (earlier ++ token :: later)) :
    ∃ front piece back, pieces = front ++ piece :: back ∧
      List.Forall₂ IsOf (placed location front) earlier ∧
      IsOf (location.afterAll (piecesText front), piece.lexeme) token := by
  -- By induction on the tokens in front of it.
  induction earlier generalizing location pieces with
  | nil =>
    cases pieces with
    | nil => cases h
    | cons piece pieces =>
      cases h with
      | cons hof hrest => exact ⟨[], piece, pieces, rfl, .nil, hof⟩
  | cons first earlier ih =>
    cases pieces with
    | nil => cases h
    | cons piece pieces =>
      cases h with
      | cons hof hrest =>
        obtain ⟨front, piece', back, rfl, hfront, htoken⟩ := ih hrest
        rw [← Location.afterAll_append] at htoken
        exact ⟨piece :: front, piece', back, rfl, .cons hof hfront, htoken⟩

end Tokens

section Places

variable {path source : String} {location : Location}

/-- A token stands where its first character does. -/
theorem token_location {front back : List Token} {token : Token}
    (h : scan path source = .ok (front ++ token :: back)) :
    ∃ before first rest, source.toList = before ++ first :: rest ∧
      StopsBetween path before front ∧ token.lexeme.toList <+: first :: rest ∧
      (token.kind = .string ↔ first = '\"') ∧ token.location = .behind path before := by
  obtain ⟨⟨lead, pieces, hlead, hproper⟩, htext, hgives⟩ := scan_eq_ok.1 h
  obtain ⟨earlier, piece, later, rfl, hearlier, hof⟩ := exists_piece_of_placed hgives
  have hcomplete := hproper.complete_of_append
  rw [← Location.afterAll_append, Location.afterAll_start] at hof
  obtain ⟨hlocation, hlexeme, hstands⟩ := hof
  obtain ⟨first, inner, hcons, -, -⟩ := (hproper.lexemes piece (by simp)).exists_cons
  rw [hcons] at hstands
  refine ⟨lead ++ piecesText earlier, first, inner ++ (piece.gap ++ piecesText later), ?_,
    ⟨⟨lead, earlier, hlead, proper_of_complete hcomplete⟩, rfl, hcomplete, hearlier⟩, ?_, ?_,
    hlocation⟩
  · rw [← htext, Cutting.text, piecesText_append, piecesText_cons, hcons]
    simp
  · rw [hlexeme, String.toList_ofList, hcons]
    exact List.prefix_append (first :: inner) _
  · constructor
    · intro hkind
      rw [hkind] at hstands
      generalize token.payload = payload at hstands
      cases hstands with
      | string heq => exact (List.cons.inj heq).1
    · rintro rfl
      by_contra hkind
      exact hstands.unquoted hkind rfl

/-- A string that is never closed is reported where its double quote stands. -/
theorem unterminatedString_location
    (h : scan path source = .error (.unterminatedString location)) :
    ∃ before text tokens, source.toList = before ++ '\"' :: text ∧
      StopsBetween path before tokens ∧ '\"' ∉ text ∧ location = .behind path before := by
  have hrefused := refused_of_scan h
  generalize source.toList = chars at hrefused
  cases hrefused with
  | string hbefore hinside =>
    refine ⟨_, _, _, rfl, hbefore, fun hquote => ?_, rfl⟩
    exact absurd (hinside _ hquote) (by decide)

/-- A number that is too large is reported where its first digit stands. -/
theorem invalidNumber_location {digits : String}
    (h : scan path source = .error (.invalidNumber location digits)) :
    ∃ before rest tokens, source.toList = before ++ (digits.toList ++ rest) ∧
      StopsBetween path before tokens ∧ digits ≠ "" ∧ (∀ c ∈ digits.toList, isDigit c = true) ∧
      (∀ c ∈ rest.head?, isBlank c = true) ∧ location = .behind path before := by
  have hrefused := refused_of_scan h
  generalize source.toList = chars at hrefused
  cases hrefused with
  | number hbefore hrun hdigits hblank =>
    rw [String.toList_ofList]
    refine ⟨_, _, _, rfl, hbefore, ?_, hdigits, hblank, rfl⟩
    rw [Ne, String.ofList_eq_empty_iff]
    exact hrun.nonempty

end Places

/-- Locations are exact: a token, a string that is never closed and a number that is too large are
each at the place of their first character. -/
theorem locations_exact (path source : String) :
    (∀ front token back, scan path source = .ok (front ++ token :: back) →
      ∃ before first rest, source.toList = before ++ first :: rest ∧
        StopsBetween path before front ∧ token.lexeme.toList <+: first :: rest ∧
        (token.kind = .string ↔ first = '\"') ∧ token.location = .behind path before) ∧
    (∀ location, scan path source = .error (.unterminatedString location) →
      ∃ before text tokens, source.toList = before ++ '\"' :: text ∧
        StopsBetween path before tokens ∧ '\"' ∉ text ∧ location = .behind path before) ∧
    ∀ location digits, scan path source = .error (.invalidNumber location digits) →
      ∃ before rest tokens, source.toList = before ++ (digits.toList ++ rest) ∧
        StopsBetween path before tokens ∧ digits ≠ "" ∧ (∀ c ∈ digits.toList, isDigit c = true) ∧
        (∀ c ∈ rest.head?, isBlank c = true) ∧ location = .behind path before :=
  ⟨fun _ _ _ h => token_location h, fun _ h => unterminatedString_location h,
    fun _ _ h => invalidNumber_location h⟩

/-- A word behind a string of two lines with characters of several bytes, a string that is open in
the second line, and a number of too many digits there. -/
theorem locations_exact_lines :
    let word : Token := ⟨⟨"p", 2, 4⟩, .word, .text "DUP", "DUP"⟩
    (∃ before first rest, "1\u2003\"é\nü\" DUP".toList = before ++ first :: rest ∧
      StopsBetween "p" before [⟨⟨"p", 1, 1⟩, .number, .number 1, "1"⟩,
        ⟨⟨"p", 1, 3⟩, .string, .text "é\nü", "\"é\nü\""⟩] ∧
      word.lexeme.toList <+: first :: rest ∧ (word.kind = .string ↔ first = '\"') ∧
      word.location = .behind "p" before) ∧
    (∃ before text tokens, "1\n \"é\n".toList = before ++ '\"' :: text ∧
      StopsBetween "p" before tokens ∧ '\"' ∉ text ∧ ⟨"p", 2, 2⟩ = Location.behind "p" before) ∧
    ∃ before rest tokens, "\u00a0\n  18446744073709551616\t".toList =
        before ++ ("18446744073709551616".toList ++ rest) ∧
      StopsBetween "p" before tokens ∧ "18446744073709551616" ≠ "" ∧
      (∀ c ∈ "18446744073709551616".toList, isDigit c = true) ∧
      (∀ c ∈ rest.head?, isBlank c = true) ∧ ⟨"p", 2, 3⟩ = Location.behind "p" before := by
  intro word
  obtain ⟨htokens, -, -⟩ := locations_exact "p" "1\u2003\"é\nü\" DUP"
  obtain ⟨-, hopen, -⟩ := locations_exact "p" "1\n \"é\n"
  obtain ⟨-, -, hnumber⟩ := locations_exact "p" "\u00a0\n  18446744073709551616\t"
  exact ⟨htokens [_, _] word [] (by decide +kernel), hopen _ (by decide +kernel),
    hnumber _ _ (by decide +kernel)⟩

/-- A character that is refused is the first one at which the text can no longer be continued to one
that can be scanned. Outside of strings it is reported at its own place. A zero character inside a
string is reported at the place behind it. -/
theorem invalidCharacter_location {path source : String} {location : Location} {c : Char}
    (h : scan path source = .error (.invalidCharacter location c)) :
    ∃ before rest, source.toList = before ++ c :: rest ∧
      (∃ more tokens, scan path (.ofList (before ++ more)) = .ok tokens) ∧
      (∀ more tokens, scan path (.ofList (before ++ c :: more)) ≠ .ok tokens) ∧
      (StopsInRun path before ∧ isGraphic c = false ∧ isBlank c = false ∧
          location = .behind path before ∨
        StopsInString path before ∧ c = '\x00' ∧ location = .behind path (before ++ [c])) := by
  have hrefused := refused_of_scan h
  generalize source.toList = chars at hrefused
  cases hrefused with
  | stray hrun hgraphic hblank hnone =>
    exact ⟨_, _, rfl, hrun.exists_ok, hnone, .inl ⟨hrun, hgraphic, hblank, rfl⟩⟩
  | zero hstring hzero hnone =>
    exact ⟨_, _, rfl, hstring.exists_ok, hnone, .inr ⟨hstring, hzero, rfl⟩⟩

/-- A letter that words cannot have, and a zero character in a string. -/
theorem invalidCharacter_location_both :
    (∃ before rest, "MOVE\ncafé".toList = before ++ 'é' :: rest ∧
      (∃ more tokens, scan "p" (.ofList (before ++ more)) = .ok tokens) ∧
      (∀ more tokens, scan "p" (.ofList (before ++ 'é' :: more)) ≠ .ok tokens) ∧
      (StopsInRun "p" before ∧ isGraphic 'é' = false ∧ isBlank 'é' = false ∧
          ⟨"p", 2, 4⟩ = Location.behind "p" before ∨
        StopsInString "p" before ∧ 'é' = '\x00' ∧
          ⟨"p", 2, 4⟩ = Location.behind "p" (before ++ ['é']))) ∧
    ∃ before rest, "\"\x00".toList = before ++ '\x00' :: rest ∧
      (∃ more tokens, scan "p" (.ofList (before ++ more)) = .ok tokens) ∧
      (∀ more tokens, scan "p" (.ofList (before ++ '\x00' :: more)) ≠ .ok tokens) ∧
      (StopsInRun "p" before ∧ isGraphic '\x00' = false ∧ isBlank '\x00' = false ∧
          ⟨"p", 1, 3⟩ = Location.behind "p" before ∨
        StopsInString "p" before ∧ '\x00' = '\x00' ∧
          ⟨"p", 1, 3⟩ = Location.behind "p" (before ++ ['\x00'])) :=
  ⟨invalidCharacter_location (by decide +kernel), invalidCharacter_location (by decide +kernel)⟩

/-- So the zero character of this text is not at the place that is reported. -/
theorem zero_reported_behind :
    scan "p" "\"\x00" = .error (.invalidCharacter ⟨"p", 1, 3⟩ '\x00') ∧
      ∀ before rest, "\"\x00".toList = before ++ '\x00' :: rest →
        Location.behind "p" before = ⟨"p", 1, 2⟩ := by
  refine ⟨by decide +kernel, fun before rest h => ?_⟩
  obtain _ | ⟨c, _ | ⟨c', before⟩⟩ := before
  · cases h
  · cases h
    rfl
  · simp at h

end Token

end Tabletop
