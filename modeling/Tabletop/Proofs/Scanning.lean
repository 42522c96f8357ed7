import Tabletop.Proofs.Decoding
import Tabletop.Proofs.Lexemes

/-!
# The scanner finds the cutting

The scanner is compared with the cuttings of a text. In the middle of a token the scanner has not
decided anything yet: the tokens still to come are those of the text from the start of the open
token on (`Scan.Expects`). A step keeps what is expected, and fails only if there is nothing to
expect (`Scan.step_moves`), so the machine ends with the tokens of the cutting (`Scan.run_eq_ok`).
-/

namespace Tabletop

theorem Direction.ofName?_eq_some {name : String} {d : Direction} :
    Direction.ofName? name = some d ↔ name = d.name :=
  find?_code_eq_some Direction.ofName?_name

private theorem boolOfName?_eq_some {name : String} {b : Bool} :
    boolOfName? name = some b ↔ name = boolName b :=
  find?_code_eq_some boolOfName?_boolName

@[simp] theorem Location.afterAll_append (location : Location) (a b : List Char) :
    location.afterAll (a ++ b) = (location.afterAll a).afterAll b :=
  List.foldl_append

namespace Token

open Text (isBlank isDigit decimalValue)

/-! ## What runs stand for -/

theorem decimalValue_eq (digits : List Char) : decimalValue digits = numeralValue digits := by
  rw [decimalValue, numeralValue, Nat.ofDigits_eq_foldr, List.foldr_map,
    List.foldl_eq_foldr_reverse]
  simp only [Nat.add_comm]
  rfl

theorem isOf_iff {location : Location} {lexeme : List Char} {token : Token} :
    IsOf (location, lexeme) token ↔ ∃ kind payload,
      Stands lexeme kind payload ∧ token = ⟨location, kind, payload, String.ofList lexeme⟩ := by
  constructor
  · rintro ⟨rfl, hlexeme, hstands⟩
    exact ⟨_, _, hstands, hlexeme ▸ rfl⟩
  · rintro ⟨kind, payload, hstands, rfl⟩
    exact ⟨rfl, rfl, hstands⟩

theorem direction_spelling {lexeme : List Char} {d : Direction}
    (h : String.ofList lexeme = d.name) :
    lexeme.all isDigit = false ∧ lexeme.head? ≠ some '\"' := by
  obtain rfl : lexeme = d.name.toList := by rw [← h, String.toList_ofList]
  cases d <;> decide

theorem bool_spelling {lexeme : List Char} {b : Bool} (h : String.ofList lexeme = boolName b) :
    lexeme.all isDigit = false ∧ lexeme.head? ≠ some '\"' := by
  obtain rfl : lexeme = (boolName b).toList := by rw [← h, String.toList_ofList]
  cases b <;> decide

private theorem direction_name_ne_boolName (d : Direction) (b : Bool) : d.name ≠ boolName b := by
  cases d <;> cases b <;> decide

/-- A run that stands for something is made into its token. -/
theorem ofBare_of_stands (location : Location) {lexeme : List Char} {kind : Token.Kind}
    {payload : Token.Payload} (hunquoted : lexeme.head? ≠ some '\"')
    (h : Stands lexeme kind payload) :
    ofBare location lexeme = .ok ⟨location, kind, payload, String.ofList lexeme⟩ := by
  cases h with
  | string hlexeme =>
    subst hlexeme
    exact absurd rfl hunquoted
  | number hbare hdigits hn =>
    have hsize : decimalValue lexeme < UInt64.size := by
      rw [decimalValue_eq]
      exact hbare.fits hdigits
    rw [ofBare, if_pos (List.all_eq_true.2 hdigits), if_pos hsize, decimalValue_eq, ← hn,
      UInt64.ofNat_toNat]
  | direction hname =>
    rw [ofBare, if_neg (by simp [(direction_spelling hname).1]),
      Direction.ofName?_eq_some.2 hname, hname]
    rfl
  | @bool b hname =>
    have hnone : Direction.ofName? (String.ofList lexeme) = none := by
      rw [Option.eq_none_iff_forall_ne_some]
      intro d hd
      rw [Direction.ofName?_eq_some, hname] at hd
      exact direction_name_ne_boolName d b hd.symm
    rw [ofBare, if_neg (by simp [(bool_spelling hname).1]), hnone,
      boolOfName?_eq_some.2 hname, hname]
    rfl
  | word hbare hdigits hdirection hbool =>
    have hnone : Direction.ofName? (String.ofList lexeme) = none :=
      Option.eq_none_iff_forall_ne_some.2 fun d hd =>
        hdirection d (Direction.ofName?_eq_some.1 hd)
    have hnone' : boolOfName? (String.ofList lexeme) = none :=
      Option.eq_none_iff_forall_ne_some.2 fun b hb => hbool b (boolOfName?_eq_some.1 hb)
    rw [ofBare, if_neg (mt List.all_eq_true.1 hdigits), hnone, hnone']
    rfl

/-- A run that is made into a token is a lexeme, and the token is the one of it. -/
theorem isOf_of_ofBare {location : Location} {text : List Char} {token : Token}
    (hrun : IsRun text) (h : ofBare location text = .ok token) :
    IsBare text ∧ IsOf (location, text) token := by
  unfold ofBare at h
  by_cases hdigits : text.all isDigit = true
  · rw [if_pos hdigits] at h
    by_cases hsize : decimalValue text < UInt64.size
    · rw [if_pos hsize] at h
      cases h
      rw [decimalValue_eq] at hsize ⊢
      have hbare : IsBare text := ⟨hrun, fun _ => hsize⟩
      refine ⟨hbare, rfl, rfl, .number hbare (List.all_eq_true.1 hdigits) ?_⟩
      exact UInt64.toNat_ofNat_of_lt hsize
    · rw [if_neg hsize] at h
      cases h
  · rw [if_neg hdigits] at h
    have hbare : IsBare text := ⟨hrun, fun hall => absurd (List.all_eq_true.2 hall) hdigits⟩
    refine ⟨hbare, ?_⟩
    cases hd : Direction.ofName? (String.ofList text) with
    | some d =>
      rw [hd] at h
      cases h
      have hname := Direction.ofName?_eq_some.1 hd
      exact ⟨rfl, hname.symm, .direction hname⟩
    | none =>
      cases hb : boolOfName? (String.ofList text) with
      | some b =>
        rw [hd, hb] at h
        cases h
        have hname := boolOfName?_eq_some.1 hb
        exact ⟨rfl, hname.symm, .bool hname⟩
      | none =>
        rw [hd, hb] at h
        cases h
        refine ⟨rfl, rfl, .word hbare (mt List.all_eq_true.2 hdigits) ?_ ?_⟩
        · intro d hname
          cases hd.symm.trans (Direction.ofName?_eq_some.2 hname)
        · intro b hname
          cases hb.symm.trans (boolOfName?_eq_some.2 hname)

theorem ofBare_eq_ok {location : Location} {text : List Char} {token : Token} (hrun : IsRun text) :
    ofBare location text = .ok token ↔ IsBare text ∧ IsOf (location, text) token := by
  constructor
  · exact isOf_of_ofBare hrun
  · rintro ⟨-, hof⟩
    obtain ⟨kind, payload, hstands, rfl⟩ := isOf_iff.1 hof
    exact ofBare_of_stands location hrun.unquoted hstands

theorem Stands.unquoted {lexeme : List Char} {kind : Token.Kind} {payload : Token.Payload}
    (h : Stands lexeme kind payload) (hkind : kind ≠ .string) : lexeme.head? ≠ some '\"' := by
  cases h with
  | string => exact absurd rfl hkind
  | number hbare => exact hbare.unquoted
  | direction hname => exact (direction_spelling hname).2
  | bool hname => exact (bool_spelling hname).2
  | word hbare => exact hbare.unquoted

private theorem stands_quoted {text : List Char} {kind : Token.Kind} {payload : Token.Payload} :
    Stands ('\"' :: (text ++ ['\"'])) kind payload ↔
      kind = .string ∧ payload = .text (.ofList text) := by
  constructor
  · intro h
    obtain rfl : kind = .string := by
      by_contra hkind
      exact h.unquoted hkind rfl
    cases h with
    | string hlexeme =>
      obtain rfl := List.append_cancel_right (List.cons.inj hlexeme).2
      exact ⟨rfl, rfl⟩
  · rintro ⟨rfl, rfl⟩
    exact .string rfl

/-- A quoted lexeme stands for the text between its quotes. -/
theorem isOf_quoted {location : Location} {text : List Char} {token : Token} :
    IsOf (location, '\"' :: (text ++ ['\"'])) token ↔
      token = ofString (String.ofList text) location := by
  have hlexeme : String.ofList ('\"' :: (text ++ ['\"'])) = "\"" ++ String.ofList text ++ "\"" := by
    apply String.toList_injective
    simp
  simp only [isOf_iff, stands_quoted, ofString, hlexeme]
  constructor
  · rintro ⟨_, _, ⟨rfl, rfl⟩, rfl⟩
    rfl
  · rintro rfl
    exact ⟨_, _, ⟨rfl, rfl⟩, rfl⟩

/-- What a lexeme stands for is told by the lexeme. -/
theorem Stands.unique {lexeme : List Char} {kind kind' : Token.Kind}
    {payload payload' : Token.Payload} (h : Stands lexeme kind payload)
    (h' : Stands lexeme kind' payload') : kind = kind' ∧ payload = payload' := by
  by_cases hquoted : lexeme.head? = some '\"'
  · obtain rfl : kind = .string := by
      by_contra hkind
      exact h.unquoted hkind hquoted
    cases h with
    | string hlexeme =>
      subst hlexeme
      obtain ⟨rfl, rfl⟩ := stands_quoted.1 h'
      exact ⟨rfl, rfl⟩
  · -- Both are what the scanner makes of the run, and the scanner has one answer.
    have heq := (ofBare_of_stands .unspecified hquoted h).symm.trans
      (ofBare_of_stands .unspecified hquoted h')
    cases heq
    exact ⟨rfl, rfl⟩

/-! ## Texts by their first lexeme -/

/-- The text that begins at `location` can be cut, and these are its tokens. -/
def CutsInto (location : Location) (text : List Char) (tokens : List Token) : Prop :=
  ∃ cutting : Cutting, cutting.text = text ∧ cutting.Gives location tokens

section CutsInto

variable {location : Location} {c : Char} {text rest run : List Char} {tokens : List Token}

private theorem cutsInto_nil : CutsInto location [] tokens ↔ tokens = [] := by
  constructor
  · rintro ⟨⟨lead, pieces, hlead, hproper⟩, htext, hgives⟩
    obtain ⟨rfl, hpieces⟩ := List.append_eq_nil_iff.1 htext
    obtain rfl := (piecesText_eq_nil hproper).1 hpieces
    exact List.forall₂_nil_left_iff.1 hgives
  · rintro rfl
    exact ⟨⟨[], [], by simp [Blanks], proper_nil⟩, rfl, .nil⟩

private theorem cutsInto_blank (hc : isBlank c = true) :
    CutsInto location (c :: rest) tokens ↔ CutsInto (location.after c) rest tokens := by
  constructor
  · rintro ⟨⟨lead, pieces, hlead, hproper⟩, htext, hgives⟩
    cases lead with
    | nil =>
      have hhead : (piecesText pieces).head? = some c := by
        rw [show piecesText pieces = c :: rest from htext]
        rfl
      exact absurd hc (by simp [hproper.not_blank hhead])
    | cons c' lead =>
      obtain ⟨rfl, hrest⟩ := List.cons.inj htext
      exact ⟨⟨lead, pieces, fun c hmem => hlead c (List.mem_cons_of_mem _ hmem), hproper⟩, hrest,
        hgives⟩
  · rintro ⟨⟨lead, pieces, hlead, hproper⟩, rfl, hgives⟩
    exact ⟨⟨c :: lead, pieces, List.forall_mem_cons.2 ⟨hc, hlead⟩, hproper⟩, rfl, hgives⟩

/-- A text that does not begin with a blank begins with a lexeme, and what follows is cut by
itself. -/
theorem cutsInto_cons (hc : isBlank c = false) :
    CutsInto location (c :: text) tokens ↔ ∃ lexeme rest token later,
      c :: text = lexeme ++ rest ∧ IsLexeme lexeme ∧
      (IsQuoted lexeme ∨ ∀ c ∈ rest.head?, isBlank c = true) ∧
      tokens = token :: later ∧ IsOf (location, lexeme) token ∧
      CutsInto (location.afterAll lexeme) rest later := by
  constructor
  · rintro ⟨⟨lead, pieces, hlead, hproper⟩, htext, hgives⟩
    obtain rfl : lead = [] := by
      cases lead with
      | nil => rfl
      | cons c' lead =>
        obtain ⟨rfl, -⟩ := List.cons.inj htext
        exact absurd (hlead c' List.mem_cons_self) (by simp [hc])
    cases pieces with
    | nil => cases htext
    | cons piece pieces =>
      obtain ⟨token, later, hof, hlater, rfl⟩ := List.forall₂_cons_left_iff.1 hgives
      obtain ⟨hlexeme, hgap, -, hpieces⟩ := proper_cons.1 hproper
      refine ⟨piece.lexeme, piece.gap ++ piecesText pieces, token, later, ?_, hlexeme, ?_, rfl,
        hof, ⟨piece.gap, pieces, hgap, hpieces⟩, rfl, ?_⟩
      · exact htext.symm.trans (piecesText_cons piece pieces)
      · exact hlexeme.imp_right fun hbare _ => hproper.blank_of_bare hbare
      · rw [Piece.text, Location.afterAll_append] at hlater
        exact hlater
  · rintro ⟨lexeme, _, token, later, htext, hlexeme, hapart, rfl, hof,
      ⟨gap, pieces, hgap, hpieces⟩, rfl, hgives⟩
    have hproper : Proper (⟨lexeme, gap⟩ :: pieces) := by
      refine proper_cons.2 ⟨hlexeme, hgap, ?_, hpieces⟩
      rintro rfl
      refine hapart.symm.imp_left fun hblank => ?_
      -- Another lexeme would have to begin with a blank.
      rw [← piecesText_eq_nil hpieces, ← List.head?_eq_none_iff,
        Option.eq_none_iff_forall_ne_some]
      intro c hc
      exact absurd (hblank c hc) (by simp [hpieces.not_blank hc])
    refine ⟨⟨[], ⟨lexeme, gap⟩ :: pieces, by simp [Blanks], hproper⟩, ?_, .cons hof ?_⟩
    · exact (piecesText_cons _ _).trans htext.symm
    · rw [Piece.text, Location.afterAll_append]
      exact hgives

/-- A text that begins with a run, up to a character that no run holds: this has to be a blank, and
the run has to be a lexeme. -/
theorem cutsInto_run (hrun : IsRun run) (hrest : ∀ c ∈ rest.head?, isGraphic c = false) :
    CutsInto location (run ++ rest) tokens ↔
      (∀ c ∈ rest.head?, isBlank c = true) ∧ ∃ token later, tokens = token :: later ∧
        ofBare location run = .ok token ∧ CutsInto (location.afterAll run) rest later := by
  obtain ⟨c, run, rfl⟩ := List.exists_cons_of_ne_nil hrun.nonempty
  have hc : isBlank c = false := isBlank_of_isGraphic (hrun.graphic c List.mem_cons_self)
  have hquote : c ≠ '\"' := fun h => hrun.unquoted (congrArg some h)
  rw [List.cons_append, cutsInto_cons hc]
  constructor
  · rintro ⟨lexeme, rest', token, later, htext, hlexeme, hapart, rfl, hof, hlater⟩
    obtain ⟨c', lexeme, rfl, -⟩ := hlexeme.exists_cons
    obtain rfl : c = c' := (List.cons.inj htext).1
    -- The lexeme is a run too, and both runs end before the first character that no run holds.
    have hbare := hlexeme.bare hquote
    have hblank := hapart.resolve_left fun h => hquote (Option.some.inj h.head?)
    rw [← List.cons_append] at htext
    obtain ⟨heq, rfl⟩ := eq_of_append_eq htext hrun.graphic hbare.graphic hrest
      fun c hc => isGraphic_of_isBlank (hblank c hc)
    rw [heq]
    exact ⟨hblank, token, later, rfl, (ofBare_eq_ok hbare.toIsRun).2 ⟨hbare, hof⟩, hlater⟩
  · rintro ⟨hblank, token, later, rfl, htoken, hlater⟩
    obtain ⟨hbare, hof⟩ := (ofBare_eq_ok hrun).1 htoken
    exact ⟨c :: run, rest, token, later, rfl, .inr hbare, .inr hblank, rfl, hof, hlater⟩

/-- A text that begins with a double quote and characters that may stand in a string, up to one that
may not: this has to be the closing double quote. -/
theorem cutsInto_quote (htext : ∀ c ∈ text, isInside c = true)
    (hrest : ∀ c ∈ rest.head?, isInside c = false) :
    CutsInto location ('\"' :: (text ++ rest)) tokens ↔ ∃ rest' later, rest = '\"' :: rest' ∧
      tokens = ofString (String.ofList text) location :: later ∧
      CutsInto (location.afterAll ('\"' :: (text ++ ['\"']))) rest' later := by
  rw [cutsInto_cons isBlank_quote]
  constructor
  · rintro ⟨lexeme, rest', token, later, heq, hlexeme, -, rfl, hof, hlater⟩
    obtain ⟨c, lexeme, rfl, -⟩ := hlexeme.exists_cons
    obtain rfl : '\"' = c := (List.cons.inj heq).1
    -- The lexeme is quoted, and both texts end before the first character that no string holds.
    obtain ⟨text', htext', hinside⟩ := hlexeme.quoted
    rw [htext'] at heq hof hlater
    simp only [List.cons_append, List.append_assoc, List.nil_append, List.cons.injEq,
      true_and] at heq
    obtain ⟨rfl, rfl⟩ := eq_of_append_eq heq htext hinside hrest (by rintro c ⟨⟩; rfl)
    exact ⟨rest', later, rfl, by rw [isOf_quoted.1 hof], hlater⟩
  · rintro ⟨rest', later, rfl, rfl, hlater⟩
    refine ⟨'\"' :: (text ++ ['\"']), rest', _, later, by simp, .inl ⟨text, rfl, htext⟩,
      .inl ⟨text, rfl, htext⟩, rfl, isOf_quoted.2 rfl, hlater⟩

end CutsInto

/-! ## The machine -/

namespace Scan

/-- The characters of the open token, as they stand in the text. -/
def opened (scan : Scan) : List Char :=
  match scan.mode with
  | .between => []
  | .bare _ text => text.reverse
  | .quoted _ text => '\"' :: text.reverse

/-- The place of the first character that is not in a finished token. -/
def origin (scan : Scan) : Location :=
  match scan.mode with
  | .between => scan.location
  | .bare start _ => start
  | .quoted start _ => start

/-- What is known of an open token. -/
def Mode.Open : Mode → Prop
  | .between => True
  | .bare _ text => IsRun text.reverse
  | .quoted _ text => ∀ c ∈ text.reverse, isInside c = true

/-- A state that the machine can get into. -/
structure Sound (scan : Scan) : Prop where
  opened : scan.mode.Open
  location : scan.location = scan.origin.afterAll scan.opened

/-- The tokens that the machine has to end with if `rest` follows. Those that are not finished are
the ones of the text from the open token on. -/
def Expects (scan : Scan) (rest : List Char) (tokens : List Token) : Prop :=
  ∃ later, tokens = scan.tokens.reverse ++ later ∧ CutsInto scan.origin (scan.opened ++ rest) later

/-- What a step may come to: it expects the same as before, or nothing could be expected. -/
inductive Moves (scan : Scan) (c : Char) : Except ScanError Scan → Prop
  | ok {next : Scan} : next.Sound →
    (∀ rest tokens, scan.Expects (c :: rest) tokens ↔ next.Expects rest tokens) →
    Moves scan c (.ok next)
  | error {e : ScanError} : (∀ rest tokens, ¬ scan.Expects (c :: rest) tokens) →
    Moves scan c (.error e)

variable {location start : Location} {text rest : List Char} {tokens done : List Token}

private theorem expects_between :
    Expects ⟨.between, location, done⟩ rest tokens ↔
      ∃ later, tokens = done.reverse ++ later ∧ CutsInto location rest later :=
  Iff.rfl

/-- A finished token is expected first. -/
theorem expects_between_cons {token : Token} :
    Expects ⟨.between, location, token :: done⟩ rest tokens ↔
      ∃ later, tokens = done.reverse ++ token :: later ∧ CutsInto location rest later := by
  simp [expects_between]

private theorem between_moves (c : Char) :
    Moves ⟨.between, location, done⟩ c (step ⟨.between, location, done⟩ c) := by
  unfold step
  dsimp only
  by_cases hblank : isBlank c = true
  · rw [if_pos hblank]
    refine .ok ⟨trivial, rfl⟩ fun rest tokens => ?_
    simp only [expects_between, cutsInto_blank hblank]
  rw [if_neg hblank]
  by_cases hquote : c = '\"'
  · rw [if_pos hquote]
    subst hquote
    -- A token is opened, but nothing is decided: what is expected reads the same as before.
    exact .ok ⟨by simp [Mode.Open], rfl⟩ fun rest tokens => Iff.rfl
  rw [if_neg hquote]
  by_cases hgraphic : isGraphic c = true
  · rw [if_pos hgraphic]
    have hrun : IsRun [c] := ⟨by simp, by simpa using hgraphic, by simpa using hquote⟩
    exact .ok ⟨hrun, rfl⟩ fun rest tokens => Iff.rfl
  · rw [if_neg hgraphic]
    refine .error fun rest tokens => ?_
    rintro ⟨later, -, hcuts⟩
    obtain ⟨lexeme, _, _, _, heq, hlexeme, -⟩ :=
      (cutsInto_cons (by simpa using hblank)).1 hcuts
    obtain ⟨c', lexeme, rfl, -, hc'⟩ := hlexeme.exists_cons
    obtain rfl : c = c' := (List.cons.inj heq).1
    exact hc'.elim hquote hgraphic

/-- A run that is followed by a blank or by nothing is made into its token. -/
theorem expects_bare (hrun : IsRun text.reverse)
    (hrest : ∀ c ∈ rest.head?, isBlank c = true) :
    Expects ⟨.bare start text, location, done⟩ rest tokens ↔ ∃ token,
      ofBare start text.reverse = .ok token ∧
      Expects ⟨.between, start.afterAll text.reverse, token :: done⟩ rest tokens := by
  have hgraphic : ∀ c ∈ rest.head?, isGraphic c = false :=
    fun c hc => isGraphic_of_isBlank (hrest c hc)
  simp only [expects_between_cons]
  constructor
  · rintro ⟨_, rfl, hcuts⟩
    obtain ⟨-, token, later, rfl, htoken, hlater⟩ := (cutsInto_run hrun hgraphic).1 hcuts
    exact ⟨token, htoken, later, rfl, hlater⟩
  · rintro ⟨token, htoken, later, rfl, hlater⟩
    exact ⟨token :: later, rfl,
      (cutsInto_run hrun hgraphic).2 ⟨hrest, token, later, rfl, htoken, hlater⟩⟩

private theorem bare_moves (hrun : IsRun text.reverse) (c : Char) :
    Moves ⟨.bare start text, start.afterAll text.reverse, done⟩ c
      (step ⟨.bare start text, start.afterAll text.reverse, done⟩ c) := by
  unfold step
  dsimp only
  by_cases hblank : isBlank c = true
  · rw [if_pos hblank]
    have hhead : ∀ rest : List Char, ∀ c' ∈ (c :: rest).head?, isBlank c' = true := by
      rintro rest c' ⟨⟩
      exact hblank
    cases htoken : ofBare start text.reverse with
    | ok token =>
      refine .ok ⟨trivial, rfl⟩ fun rest tokens => ?_
      simp only [expects_bare hrun (hhead rest), htoken, Except.ok.injEq, exists_eq_left',
        expects_between, cutsInto_blank hblank]
    | error e =>
      refine .error fun rest tokens => ?_
      simp [expects_bare hrun (hhead rest), htoken]
  rw [if_neg hblank]
  by_cases hgraphic : isGraphic c = true
  · rw [if_pos hgraphic]
    have hlonger : IsRun (c :: text).reverse := by
      obtain ⟨hnonempty, hall, hunquoted⟩ := hrun
      rw [List.reverse_cons]
      refine ⟨by simp, ?_, ?_⟩
      · exact List.forall_mem_append.2 ⟨hall, by simpa using hgraphic⟩
      · rw [List.head?_append_of_ne_nil _ hnonempty]
        exact hunquoted
    refine .ok ⟨hlonger, ?_⟩ fun rest tokens => ?_
    · simp [origin, opened, Location.afterAll]
    · simp [Expects, origin, opened]
  · rw [if_neg hgraphic]
    refine .error fun rest tokens => ?_
    rintro ⟨later, -, hcuts⟩
    -- The run ends here, but not at a blank.
    have hend : ∀ c' ∈ (c :: rest).head?, isGraphic c' = false := by
      rintro c' ⟨⟩
      simpa using hgraphic
    exact hblank (((cutsInto_run hrun hend).1 hcuts).1 c rfl)

/-- A string that is followed by a character that it cannot hold expects its end. -/
theorem expects_quoted (htext : ∀ c ∈ text.reverse, isInside c = true)
    (hrest : ∀ c ∈ rest.head?, isInside c = false) :
    Expects ⟨.quoted start text, location, done⟩ rest tokens ↔ ∃ rest', rest = '\"' :: rest' ∧
      Expects ⟨.between, start.afterAll ('\"' :: (text.reverse ++ ['\"'])),
        ofString (String.ofList text.reverse) start :: done⟩ rest' tokens := by
  simp only [expects_between_cons]
  constructor
  · rintro ⟨_, rfl, hcuts⟩
    obtain ⟨rest', later, rfl, rfl, hlater⟩ := (cutsInto_quote htext hrest).1 hcuts
    exact ⟨rest', rfl, later, rfl, hlater⟩
  · rintro ⟨rest', rfl, later, rfl, hlater⟩
    exact ⟨_, rfl, (cutsInto_quote htext hrest).2 ⟨rest', later, rfl, rfl, hlater⟩⟩

private theorem quoted_moves (htext : ∀ c ∈ text.reverse, isInside c = true) (c : Char) :
    Moves ⟨.quoted start text, start.afterAll ('\"' :: text.reverse), done⟩ c
      (step ⟨.quoted start text, start.afterAll ('\"' :: text.reverse), done⟩ c) := by
  unfold step
  dsimp only
  by_cases hquote : c = '\"'
  · rw [if_pos hquote]
    subst hquote
    refine .ok ⟨trivial, rfl⟩ fun rest tokens => ?_
    rw [expects_quoted htext (by rintro c ⟨⟩; rfl)]
    simp [Location.afterAll]
  rw [if_neg hquote]
  by_cases hzero : c = '\x00'
  · rw [if_pos hzero]
    subst hzero
    refine .error fun rest tokens => ?_
    rw [expects_quoted htext (by rintro c ⟨⟩; rfl)]
    rintro ⟨rest', heq, -⟩
    exact hquote (List.cons.inj heq).1
  · rw [if_neg hzero]
    have hlonger : ∀ c' ∈ (c :: text).reverse, isInside c' = true := by
      rw [List.reverse_cons]
      exact List.forall_mem_append.2 ⟨htext, by simp [isInside, hquote, hzero]⟩
    refine .ok ⟨hlonger, ?_⟩ fun rest tokens => ?_
    · simp [origin, opened, Location.afterAll]
    · simp [Expects, origin, opened]

theorem step_moves {scan : Scan} (h : scan.Sound) (c : Char) : Moves scan c (scan.step c) := by
  obtain ⟨mode, location, done⟩ := scan
  obtain ⟨hopen, hlocation⟩ := h
  cases mode with
  | between => exact between_moves c
  | bare start text =>
    obtain rfl : location = start.afterAll text.reverse := hlocation
    exact bare_moves hopen c
  | quoted start text =>
    obtain rfl : location = start.afterAll ('\"' :: text.reverse) := hlocation
    exact quoted_moves hopen c

/-- At the end of the text the machine gives what it expects of nothing more to come. -/
theorem finish_eq_ok {scan : Scan} (h : scan.Sound) :
    scan.finish = .ok tokens ↔ scan.Expects [] tokens := by
  obtain ⟨mode, location, done⟩ := scan
  have hopen := h.opened
  cases mode with
  | between =>
    simp [finish, expects_between, cutsInto_nil, eq_comm]
  | bare start text =>
    rw [expects_bare hopen (by simp)]
    cases htoken : ofBare start text.reverse with
    | ok token =>
      simp [finish, htoken, expects_between, cutsInto_nil, eq_comm, bind, Except.bind, pure,
        Except.pure]
    | error e => simp [finish, htoken, bind, Except.bind]
  | quoted start text =>
    -- The double quote that would close the string is missing.
    rw [expects_quoted hopen (by simp)]
    simp [finish]

/-- The machine ends with the tokens it expects, and fails if there are none to expect. -/
theorem run_eq_ok {scan : Scan} (h : scan.Sound) :
    (rest.foldlM step scan >>= finish) = .ok tokens ↔ scan.Expects rest tokens := by
  -- By induction on the text that is left, from any state the machine can be in.
  induction rest generalizing scan with
  | nil => exact finish_eq_ok h
  | cons c rest ih =>
    rw [List.foldlM_cons]
    have hmoves := step_moves h c
    generalize scan.step c = result at hmoves
    cases hmoves with
    | ok hnext hexpects =>
      rw [hexpects]
      exact ih hnext
    | error hrefused =>
      constructor
      · intro herror
        cases herror
      · intro hexpects
        exact absurd hexpects (hrefused rest tokens)

end Scan

theorem scan_eq_ok {path source : String} {tokens : List Token} :
    scan path source = .ok tokens ↔ CutsInto (.start path) source.toList tokens :=
  calc scan path source = .ok tokens
    _ ↔ (Scan.start path).Expects source.toList tokens := Scan.run_eq_ok ⟨trivial, rfl⟩
    _ ↔ CutsInto (.start path) source.toList tokens := by
      simp [Scan.start, Scan.expects_between]

/-! ## Texts that can be cut have tokens -/

theorem IsLexeme.exists_stands {lexeme : List Char} (h : IsLexeme lexeme) :
    ∃ kind payload, Stands lexeme kind payload := by
  rcases h with ⟨text, hlexeme, -⟩ | hbare
  · exact ⟨_, _, .string hlexeme⟩
  by_cases hdigits : ∀ c ∈ lexeme, isDigit c = true
  · exact ⟨_, _, .number hbare hdigits (UInt64.toNat_ofNat_of_lt (hbare.fits hdigits))⟩
  by_cases hdirection : ∃ d : Direction, String.ofList lexeme = d.name
  · obtain ⟨d, hd⟩ := hdirection
    exact ⟨_, _, .direction hd⟩
  by_cases hbool : ∃ b, String.ofList lexeme = boolName b
  · obtain ⟨b, hb⟩ := hbool
    exact ⟨_, _, .bool hb⟩
  · exact ⟨_, _, .word hbare hdigits (not_exists.1 hdirection) (not_exists.1 hbool)⟩

theorem exists_isOf_placed {pieces : List Piece} (h : ∀ piece ∈ pieces, IsLexeme piece.lexeme)
    (location : Location) : ∃ tokens, List.Forall₂ IsOf (placed location pieces) tokens := by
  induction pieces generalizing location with
  | nil => exact ⟨[], .nil⟩
  | cons piece pieces ih =>
    rw [List.forall_mem_cons] at h
    obtain ⟨kind, payload, hstands⟩ := h.1.exists_stands
    obtain ⟨tokens, htokens⟩ := ih h.2 (location.afterAll piece.text)
    exact ⟨_, .cons (isOf_iff.2 ⟨kind, payload, hstands, rfl⟩) htokens⟩

/-- Scanning accepts the texts that can be cut, and gives the tokens of the cutting, of which there
is one. What each token stands for is told by its lexeme. -/
theorem scan_accepts_cuttings (path source : String) :
    (∀ tokens, scan path source = .ok tokens ↔ ∃ cutting : Cutting,
      cutting.text = source.toList ∧ cutting.Gives (.start path) tokens) ∧
    ((∃ tokens, scan path source = .ok tokens) ↔
      ∃ cutting : Cutting, cutting.text = source.toList) ∧
    (∀ cutting cutting' : Cutting, cutting.text = source.toList →
      cutting'.text = source.toList → cutting = cutting') ∧
    ∀ lexeme, IsLexeme lexeme →
      ∃! meaning : Token.Kind × Token.Payload, Stands lexeme meaning.1 meaning.2 := by
  refine ⟨fun tokens => scan_eq_ok, ⟨?_, ?_⟩, ?_, ?_⟩
  · rintro ⟨tokens, hscan⟩
    obtain ⟨cutting, htext, -⟩ := scan_eq_ok.1 hscan
    exact ⟨cutting, htext⟩
  · rintro ⟨cutting, htext⟩
    obtain ⟨tokens, hgives⟩ := exists_isOf_placed cutting.proper.lexemes
      ((Location.start path).afterAll cutting.lead)
    exact ⟨tokens, scan_eq_ok.2 ⟨cutting, htext, hgives⟩⟩
  · intro cutting cutting' htext htext'
    exact Cutting.text_injective (htext.trans htext'.symm)
  · intro lexeme hlexeme
    obtain ⟨kind, payload, hstands⟩ := hlexeme.exists_stands
    refine ⟨(kind, payload), hstands, ?_⟩
    rintro ⟨kind', payload'⟩ hstands'
    obtain ⟨rfl, rfl⟩ := hstands.unique hstands'
    rfl

/-- A string with a blank in it, a word right behind it that holds a quote, and leading zeros. -/
theorem scan_accepts_cuttings_quotes :
    (∃ cutting : Cutting, cutting.text = "\"a b\"c\"d 007".toList ∧
      cutting.Gives (.start "p") [
        ⟨⟨"p", 1, 1⟩, .string, .text "a b", "\"a b\""⟩,
        ⟨⟨"p", 1, 6⟩, .word, .text "c\"d", "c\"d"⟩,
        ⟨⟨"p", 1, 10⟩, .number, .number 7, "007"⟩] ∧
      ∀ cutting' : Cutting, cutting'.text = "\"a b\"c\"d 007".toList → cutting' = cutting) ∧
    ∃! meaning : Token.Kind × Token.Payload, Stands "007".toList meaning.1 meaning.2 := by
  obtain ⟨haccepts, -, hunique, hmeaning⟩ := scan_accepts_cuttings "p" "\"a b\"c\"d 007"
  constructor
  · refine ((haccepts _).1 (by decide +kernel)).imp fun cutting h => ⟨h.1, h.2, ?_⟩
    intro cutting' htext'
    exact hunique _ _ htext' h.1
  · have hgraphic : "007".toList.all isGraphic = true := by decide
    exact hmeaning _ (.inr ⟨⟨by decide, List.all_eq_true.1 hgraphic, by decide⟩,
      fun _ => by decide⟩)

end Token

end Tabletop
