import Tabletop.Proofs.Spacing
import Tabletop.Table

/-!
# Which settings are accepted

`IsLength` says which texts write a length: digits, maybe a plus sign in front of them and blanks
around, with a value that is positive and fits into 64 bits. Reading a setting accepts these texts
and no others (`readLength?_eq_some`). So the table is the one that both settings ask for, or else
the first of them that is refused is reported, with its text as it was given
(`ofSettings_exact`).
-/

namespace Tabletop

open Token (Blanks numeralValue decimalValue_eq isBlank_of_isGraphic isGraphic_of_isDigit)

/-! ## Trimming -/

namespace Text

private theorem exists_trim (text : List Char) :
    ∃ before after, text = before ++ trim text ++ after ∧ Blanks before ∧ Blanks after := by
  obtain ⟨after, hafter, hblank⟩ := exists_dropEndWhile isBlank (text.dropWhile isBlank)
  refine ⟨text.takeWhile isBlank, after, ?_, ?_, hblank⟩
  · rw [List.append_assoc, trim, ← hafter, List.takeWhile_append_dropWhile]
  · exact List.all_eq_true.1 List.all_takeWhile

/-- Trimming takes away the blanks around a text that has no others. -/
theorem trim_of_blanks {before core after : List Char} (hbefore : Blanks before)
    (hafter : Blanks after) (hne : core ≠ []) (hcore : ∀ c ∈ core, isBlank c = false) :
    trim (before ++ core ++ after) = core := by
  have hhead : (core ++ after).dropWhile isBlank = core ++ after := by
    obtain ⟨c, rest, rfl⟩ := List.exists_cons_of_ne_nil hne
    simp [hcore c]
  have hlast : core.reverse.dropWhile isBlank = core.reverse := by
    obtain ⟨c, rest, hreverse⟩ := List.exists_cons_of_ne_nil (List.reverse_ne_nil_iff.2 hne)
    have hc : c ∈ core := List.mem_reverse.1 (hreverse ▸ List.mem_cons_self)
    rw [hreverse, List.dropWhile_cons_of_neg (by simp [hcore c hc])]
  have hafter' : ∀ c ∈ after.reverse, isBlank c = true :=
    fun c hc => hafter c (List.mem_reverse.1 hc)
  rw [trim, dropEndWhile, List.append_assoc, List.dropWhile_append_of_pos hbefore, hhead,
    List.reverse_append, List.dropWhile_append_of_pos hafter', hlast, List.reverse_reverse]

/-! ## Numerals -/

/-- Digits, maybe behind a plus sign, with the value `n`. -/
def IsNumeral (text : List Char) (n : Nat) : Prop :=
  ∃ digits, (text = digits ∨ text = '+' :: digits) ∧ digits ≠ [] ∧
    (∀ c ∈ digits, isDigit c = true) ∧ numeralValue digits = n

theorem IsNumeral.not_blank {text : List Char} {n : Nat} (h : IsNumeral text n) :
    ∀ c ∈ text, isBlank c = false := by
  obtain ⟨digits, htext, -, hdigits, -⟩ := h
  have hall : ∀ c ∈ digits, isBlank c = false :=
    fun c hc => isBlank_of_isGraphic (isGraphic_of_isDigit (hdigits c hc))
  rcases htext with rfl | rfl
  · exact hall
  · exact List.forall_mem_cons.2 ⟨isBlank_of_isGraphic (by decide), hall⟩

theorem IsNumeral.ne_nil {text : List Char} {n : Nat} (h : IsNumeral text n) : text ≠ [] := by
  obtain ⟨digits, rfl | rfl, hne, -⟩ := h
  · exact hne
  · exact List.cons_ne_nil _ _

private theorem readNat?_eq_some {text : List Char} {n : Nat} :
    readNat? text = some n ↔
      text ≠ [] ∧ (∀ c ∈ text, isDigit c = true) ∧ numeralValue text = n := by
  simp [readNat?, decimalValue_eq, and_assoc]

/-- A sign is no digit, so what follows the plus sign is the whole number. -/
theorem isNumeral_plus {digits : List Char} {n : Nat} :
    IsNumeral ('+' :: digits) n ↔ readNat? digits = some n := by
  rw [readNat?_eq_some]
  constructor
  · rintro ⟨digits', hsign | hsign, h⟩
    · subst hsign
      exact absurd (h.2.1 '+' List.mem_cons_self) (by decide)
    · cases hsign
      exact h
  · intro h
    exact ⟨digits, .inr rfl, h⟩

private theorem not_isNumeral_minus {digits : List Char} {n : Nat} :
    ¬ IsNumeral ('-' :: digits) n := by
  rintro ⟨digits', hsign | hsign, h⟩
  · subst hsign
    exact absurd (h.2.1 '-' List.mem_cons_self) (by decide)
  · cases hsign

private theorem isNumeral_unsigned {text : List Char} {n : Nat}
    (hplus : ∀ digits, text ≠ '+' :: digits) :
    IsNumeral text n ↔ readNat? text = some n := by
  rw [readNat?_eq_some]
  constructor
  · rintro ⟨digits, rfl | rfl, h⟩
    · exact h
    · exact absurd rfl (hplus digits)
  · intro h
    exact ⟨text, .inl rfl, h⟩

/-- A positive integer is read from its numerals only. -/
theorem readInt?_eq_some {text : List Char} {n : Nat} (hn : 0 < n) :
    readInt? text = some (n : Int) ↔ IsNumeral text n := by
  have hcast : ∀ digits, (readNat? digits).map Int.ofNat = some (n : Int) ↔
      readNat? digits = some n := by
    intro digits
    cases readNat? digits <;> simp
  unfold readInt?
  split
  · rw [hcast, isNumeral_plus]
  · rename_i digits
    refine iff_of_false ?_ not_isNumeral_minus
    -- Behind a minus sign no digits have a positive value.
    intro h
    cases hread : readNat? digits with
    | none =>
      rw [hread] at h
      cases h
    | some m =>
      rw [hread] at h
      have hneg : -(m : Int) = n := Option.some.inj h
      omega
  · rename_i hplus _
    rw [hcast, isNumeral_unsigned hplus]

private theorem toInt64?_eq_some {n : Int} {i : Int64} : toInt64? n = some i ↔ i.toInt = n := by
  unfold toInt64?
  constructor
  · intro h
    split at h
    · rename_i hrange
      cases h
      exact Int64.toInt_ofInt_of_le hrange.1 (Int.lt_of_le_of_lt hrange.2 (by decide))
    · cases h
  · rintro rfl
    rw [if_pos ⟨i.minValue_le_toInt, i.toInt_le⟩, Int64.ofInt_toInt]

end Text

namespace Table

/-! ## Lengths -/

/-- The text writes the length `n`. -/
structure IsLength (text : String) (n : Nat) : Prop where
  numeral : ∃ before core after, text.toList = before ++ core ++ after ∧ Blanks before ∧
    Blanks after ∧ Text.IsNumeral core n
  positive : 1 ≤ n
  fits : n ≤ 2 ^ 63 - 1

private theorem readLength?_eq_some {text : String} {length : Int64} :
    readLength? text = some length ↔ ∃ n : Nat, IsLength text n ∧ length.toInt = n := by
  have hread : readLength? text = some length ↔
      Text.readInt? (Text.trim text.toList) = some length.toInt ∧ 0 < length := by
    simp [readLength?, Option.bind_eq_some_iff, Text.toInt64?_eq_some]
  rw [hread, Int64.lt_iff_toInt_lt, Int64.toInt_zero]
  constructor
  · rintro ⟨hint, hpositive⟩
    -- The value is not negative, so it is that of a numeral.
    obtain ⟨n, hn⟩ := Int.eq_ofNat_of_zero_le (Int.le_of_lt hpositive)
    have hle : length.toInt ≤ 2 ^ 63 - 1 := length.toInt_le
    rw [hn] at hint hpositive hle
    have hnumeral := (Text.readInt?_eq_some (by omega)).1 hint
    obtain ⟨before, after, htext, hbefore, hafter⟩ := Text.exists_trim text.toList
    exact ⟨n, ⟨⟨before, _, after, htext, hbefore, hafter, hnumeral⟩, by omega, by omega⟩, hn⟩
  · rintro ⟨n, ⟨⟨before, core, after, htext, hbefore, hafter, hcore⟩, hpositive, -⟩, hn⟩
    rw [hn, htext, Text.trim_of_blanks hbefore hafter hcore.ne_nil hcore.not_blank]
    exact ⟨(Text.readInt?_eq_some hpositive).2 hcore, by omega⟩

example : readLength? " +007\n" = some 7 := by decide

example : readLength? "9223372036854775808" = none := by decide +kernel

/-- Every length can be read. -/
theorem IsLength.exists_read {text : String} {n : Nat} (h : IsLength text n) :
    ∃ length, readLength? text = some length := by
  refine ⟨.ofInt n, readLength?_eq_some.2 ⟨n, h, ?_⟩⟩
  have hfits := h.fits
  exact Int64.toInt_ofInt_of_le (by omega) (by omega)

/-! ## Settings -/

/-- The setting asks for the length: either it is not given, or its text writes the length. -/
inductive Asks : Option String → Int64 → Prop where
  | nothing : Asks none 5
  | text {text : String} {n : Nat} {length : Int64} (written : IsLength text n)
      (value : length.toInt = n) : Asks (some text) length

/-- The setting is given, but its text writes no length. -/
def Refused (lookup : String → Option String) (setting text : String) : Prop :=
  lookup setting = some text ∧ ∀ n, ¬ IsLength text n

/-- The first setting that is refused, and its text. -/
inductive FirstRefused (lookup : String → Option String) : String → String → Prop where
  | width {text : String} (refused : Refused lookup widthSetting text) :
      FirstRefused lookup widthSetting text
  | height {text : String} (fine : ∀ text', ¬ Refused lookup widthSetting text')
      (refused : Refused lookup heightSetting text) : FirstRefused lookup heightSetting text

private theorem exists_asks {given : Option String} :
    (∃ length, Asks given length) ↔
      given = none ∨ ∃ text n, given = some text ∧ IsLength text n := by
  constructor
  · rintro ⟨_, ⟨⟩ | ⟨hwritten, hvalue⟩⟩
    · exact .inl rfl
    · exact .inr ⟨_, _, rfl, hwritten⟩
  · rintro (rfl | ⟨text, n, rfl, hwritten⟩)
    · exact ⟨5, .nothing⟩
    · obtain ⟨length, hread⟩ := hwritten.exists_read
      obtain ⟨m, hm, hvalue⟩ := readLength?_eq_some.1 hread
      exact ⟨length, .text hm hvalue⟩

section Length

variable {setting : String} {given : Option String}

private theorem length_eq_ok {length : Int64} :
    Table.length setting 5 given = .ok length ↔ Asks given length := by
  cases given with
  | none =>
    constructor
    · intro h
      cases h
      exact .nothing
    · rintro ⟨⟩
      rfl
  | some text =>
    have hread : Table.length setting 5 (some text) = .ok length ↔
        readLength? text = some length := by
      cases h : readLength? text <;> simp [Table.length, h]
    rw [hread, readLength?_eq_some]
    constructor
    · rintro ⟨n, hwritten, hvalue⟩
      exact .text hwritten hvalue
    · rintro ⟨⟩
      exact ⟨_, ‹_›, ‹_›⟩

private theorem length_eq_error {error : ConfigError} :
    Table.length setting 5 given = .error error ↔
      ∃ text, (given = some text ∧ ∀ n, ¬ IsLength text n) ∧ error = .notPositive setting text := by
  cases given with
  | none =>
    constructor
    · nofun
    · rintro ⟨_, ⟨⟨⟩, _⟩, _⟩
  | some text =>
    cases hread : readLength? text with
    | none =>
      have hnone : ∀ n, ¬ IsLength text n := by
        intro n hwritten
        obtain ⟨length, hlength⟩ := hwritten.exists_read
        rw [hread] at hlength
        cases hlength
      simp [Table.length, hread, hnone, eq_comm]
    | some length =>
      obtain ⟨n, hwritten, -⟩ := readLength?_eq_some.1 hread
      simp only [Table.length, hread, reduceCtorEq, false_iff]
      rintro ⟨_, ⟨⟨⟩, hnone⟩, _⟩
      exact hnone n hwritten

end Length

section Settings

variable {lookup : String → Option String}

private theorem ofSettings_eq_ok {table : Table} :
    ofSettings lookup = .ok table ↔
      Asks (lookup widthSetting) table.width ∧ Asks (lookup heightSetting) table.height := by
  obtain ⟨width, height⟩ := table
  rw [← @length_eq_ok widthSetting, ← @length_eq_ok heightSetting]
  unfold ofSettings standard
  cases Table.length widthSetting 5 (lookup widthSetting) with
  | error e => simp [bind, Except.bind]
  | ok width' =>
    cases Table.length heightSetting 5 (lookup heightSetting) with
    | error e => simp [bind, Except.bind]
    | ok height' => simp [bind, Except.bind, pure, Except.pure]

private theorem ofSettings_eq_error {error : ConfigError} :
    ofSettings lookup = .error error ↔
      ∃ setting text, FirstRefused lookup setting text ∧ error = .notPositive setting text := by
  have hwidth := @length_eq_error widthSetting (lookup widthSetting)
  have hheight := @length_eq_error heightSetting (lookup heightSetting)
  unfold ofSettings standard
  cases hw : Table.length widthSetting 5 (lookup widthSetting) with
  | error e =>
    obtain ⟨text, hrefused, rfl⟩ := hwidth.1 hw
    simp only [bind, Except.bind, Except.error.injEq]
    constructor
    · rintro rfl
      exact ⟨_, text, .width hrefused, rfl⟩
    · rintro ⟨_, _, ⟨hrefused'⟩ | ⟨hfine, _⟩, rfl⟩
      · rw [Option.some.inj (hrefused.1.symm.trans hrefused'.1)]
      · exact absurd hrefused (hfine text)
  | ok width =>
    have hfine : ∀ text, ¬ Refused lookup widthSetting text := by
      intro text hrefused
      cases hw.symm.trans (hwidth.2 ⟨text, hrefused, rfl⟩)
    cases hh : Table.length heightSetting 5 (lookup heightSetting) with
    | error e =>
      obtain ⟨text, hrefused, rfl⟩ := hheight.1 hh
      simp only [bind, Except.bind, Except.error.injEq]
      constructor
      · rintro rfl
        exact ⟨_, text, .height hfine hrefused, rfl⟩
      · rintro ⟨_, _, ⟨hrefused'⟩ | ⟨_, hrefused'⟩, rfl⟩
        · exact absurd hrefused' (hfine _)
        · rw [Option.some.inj (hrefused.1.symm.trans hrefused'.1)]
    | ok height =>
      simp only [bind, Except.bind, pure, Except.pure, reduceCtorEq, false_iff]
      rintro ⟨_, text, ⟨hrefused⟩ | ⟨_, hrefused⟩, _⟩
      · exact hfine text hrefused
      · cases hh.symm.trans (hheight.2 ⟨text, hrefused, rfl⟩)

end Settings

/-- The settings are accepted exactly if both of them are left out or write a length. The table then
has these lengths. Otherwise the first setting that writes none is reported, with its text. -/
theorem ofSettings_exact (lookup : String → Option String) :
    ((∃ table, ofSettings lookup = .ok table) ↔
      ∀ setting ∈ [widthSetting, heightSetting],
        lookup setting = none ∨ ∃ text n, lookup setting = some text ∧ IsLength text n) ∧
    (∀ table, ofSettings lookup = .ok table ↔
      Asks (lookup widthSetting) table.width ∧ Asks (lookup heightSetting) table.height) ∧
    (∀ error, ofSettings lookup = .error error ↔
      ∃ setting text, FirstRefused lookup setting text ∧ error = .notPositive setting text ∧
        error.message = "invalid configuration: " ++ setting ++
          " must be a positive integer, found '" ++ text ++ "'") := by
  refine ⟨?_, fun table => ofSettings_eq_ok, fun error => ?_⟩
  · simp only [List.forall_mem_cons, List.not_mem_nil, false_imp_iff, implies_true, and_true,
      ← exists_asks, ofSettings_eq_ok]
    constructor
    · rintro ⟨table, hwidth, hheight⟩
      exact ⟨⟨_, hwidth⟩, ⟨_, hheight⟩⟩
    · rintro ⟨⟨width, hwidth⟩, ⟨height, hheight⟩⟩
      exact ⟨⟨width, height⟩, hwidth, hheight⟩
  · rw [ofSettings_eq_error]
    constructor
    · rintro ⟨setting, text, hfirst, rfl⟩
      exact ⟨setting, text, hfirst, rfl, rfl⟩
    · rintro ⟨setting, text, hfirst, rfl, -⟩
      exact ⟨setting, text, hfirst, rfl⟩

end Table

end Tabletop
