import Mathlib.Logic.Function.Defs
import Tabletop.Proofs.Lexemes

/-!
# Quoted text can be read back

Between double quotes a character is written as itself, as a backslash and a mark, or by its number
(`Spelling`). No spelling begins like that of another character (`Spelling.append_inj`), so a text
is told by what stands between its quotes (`quoted_injective`). What stands there holds no control
character, and every backslash and double quote in it is part of an escape (`quoted_isEscaped`).
-/

namespace Tabletop.Text

/-! ## Numerals -/

private theorem digitChar_injective :
    ∀ m < 16, ∀ n < 16, Nat.digitChar m = Nat.digitChar n → m = n := by
  decide

/-- A number is told by its hexadecimal digits. -/
theorem hexDigits_injective : Function.Injective hexDigits := by
  intro m n h
  unfold hexDigits at h
  -- The last digit is the remainder, and the digits in front of it are those of the quotient.
  induction m using Nat.strongRecOn generalizing n with
  | ind m ih =>
    rcases Nat.lt_or_ge m 16 with hm | hm <;> rcases Nat.lt_or_ge n 16 with hn | hn
    · rw [Nat.toDigits_of_lt_base hm, Nat.toDigits_of_lt_base hn] at h
      exact digitChar_injective m hm n hn (List.cons.inj h).1
    · rw [Nat.toDigits_of_lt_base hm, Nat.toDigits_of_base_le (by decide) hn] at h
      exact absurd (List.singleton_eq_append_iff.1 h) (by simp)
    · rw [Nat.toDigits_of_lt_base hn, Nat.toDigits_of_base_le (by decide) hm] at h
      exact absurd (List.append_eq_singleton_iff.1 h) (by simp)
    · rw [Nat.toDigits_of_base_le (by decide) hm, Nat.toDigits_of_base_le (by decide) hn] at h
      obtain ⟨hfront, hlast⟩ := List.append_inj' h rfl
      have hquotient := ih (m / 16) (by omega) hfront
      have hremainder := digitChar_injective (m % 16) (by omega) (n % 16) (by omega)
        (List.cons.inj hlast).1
      omega

private theorem mem_hexDigits {n : Nat} {c : Char} (h : c ∈ hexDigits n) :
    ∃ d < 16, c = Nat.digitChar d := by
  unfold hexDigits at h
  induction n using Nat.strongRecOn with
  | ind n ih =>
    rcases Nat.lt_or_ge n 16 with hn | hn
    · rw [Nat.toDigits_of_lt_base hn, List.mem_singleton] at h
      exact ⟨n, hn, h⟩
    · rw [Nat.toDigits_of_base_le (by decide) hn, List.mem_append, List.mem_singleton] at h
      rcases h with hfront | hlast
      · exact ih (n / 16) (by omega) hfront
      · exact ⟨n % 16, by omega, hlast⟩

/-! ## Escaped text -/

/-- Is it one of the control characters, U+0000 to U+001F and U+007F to U+009F? -/
def isControl (c : Char) : Bool := c.toNat ≤ 0x1F || (0x7F ≤ c.toNat && c.toNat ≤ 0x9F)

/-- A character that needs no escape: no backslash, no double quote and no control character. -/
def isPlain (c : Char) : Bool := c != '\\' && c != '\"' && !isControl c

/-- The characters that may follow the backslash of an escape. -/
def escapeMarks : List Char := ['0', 't', 'r', 'n', '\\', '\"', 'u']

/-- Text in which backslashes, double quotes and control characters do not stand unescaped. -/
inductive IsEscaped : List Char → Prop
  | nil : IsEscaped []
  | plain {c : Char} {rest : List Char} : isPlain c = true → IsEscaped rest → IsEscaped (c :: rest)
  | escape {c : Char} {rest : List Char} : c ∈ escapeMarks → IsEscaped rest →
    IsEscaped ('\\' :: c :: rest)

private theorem IsEscaped.of_plain {text : List Char} (h : ∀ c ∈ text, isPlain c = true) :
    IsEscaped text := by
  induction text with
  | nil => exact .nil
  | cons c rest ih =>
    rw [List.forall_mem_cons] at h
    exact .plain h.1 (ih h.2)

theorem IsEscaped.append {front back : List Char} (hfront : IsEscaped front)
    (hback : IsEscaped back) : IsEscaped (front ++ back) := by
  induction hfront with
  | nil => exact hback
  | plain hplain _ ih => exact .plain hplain ih
  | escape hmark _ ih => exact .escape hmark ih

private theorem isControl_of_isPlain {c : Char} (h : isPlain c = true) : isControl c = false := by
  simp only [isPlain, Bool.and_eq_true, Bool.not_eq_true'] at h
  exact h.2

/-- An escape itself is made of visible characters. -/
theorem IsEscaped.isControl_eq_false {text : List Char} (h : IsEscaped text) :
    ∀ c ∈ text, isControl c = false := by
  have hmarks : escapeMarks.all (fun c => !isControl c) = true := by decide
  induction h with
  | nil => simp
  | plain hplain _ ih => exact List.forall_mem_cons.2 ⟨isControl_of_isPlain hplain, ih⟩
  | escape hmark _ ih =>
    have hcontrol := List.all_eq_true.1 hmarks _ hmark
    rw [Bool.not_eq_true'] at hcontrol
    exact List.forall_mem_cons.2 ⟨by decide, List.forall_mem_cons.2 ⟨hcontrol, ih⟩⟩

/-! ## The spelling of a character -/

/-- The characters that are written as a backslash and a mark, each with its mark. -/
def shorthands : List (Char × Char) :=
  [('\x00', '0'), ('\t', 't'), ('\r', 'r'), ('\n', 'n'), ('\\', '\\'), ('\"', '\"')]

/-- The ways to write a character between double quotes. -/
inductive Spelling (c : Char) : List Char → Prop
  | itself : isPlain c = true → Spelling c [c]
  | shorthand {mark : Char} : (c, mark) ∈ shorthands → Spelling c ['\\', mark]
  | number : Spelling c ('\\' :: 'u' :: '\x7b' :: (hexDigits c.toNat ++ ['\x7d']))

/-- Control characters cannot be seen on their own. -/
theorem isHidden_of_isControl {c : Char} (h : isControl c = true) : isHidden c = true := by
  -- The table begins with the two ranges of control characters.
  obtain ⟨later, hranges⟩ : ∃ later,
      unprintable.ranges = (0x0, 0x1F) :: (0x7F, 0xA0) :: later := ⟨_, rfl⟩
  have hcontains : unprintable.contains c = true := by
    simp only [isControl, Bool.or_eq_true, Bool.and_eq_true, decide_eq_true_eq] at h
    simp only [CodePoints.contains, hranges, CodePoints.search, Bool.and_eq_true, Bool.or_eq_true,
      decide_eq_true_eq]
    omega
  simp [isHidden, hcontains]

private theorem spelling_escape (c : Char) : Spelling c (escape '\"' c) := by
  unfold escape
  iterate 4
    split
    · next h => exact .shorthand (by simp [h, shorthands])
  split
  · next h => exact .shorthand (by rcases h with rfl | rfl <;> simp [shorthands])
  split
  · exact .number
  · next hmark hhidden =>
    have hcontrol : isControl c = false := by
      cases hcontrol : isControl c with
      | false => rfl
      | true => exact absurd (isHidden_of_isControl hcontrol) hhidden
    rw [not_or] at hmark
    exact .itself (by simp [isPlain, hmark, hcontrol])

section Spelling

variable {c d : Char} {text text' rest rest' : List Char}

theorem Spelling.ne_nil (h : Spelling c text) : text ≠ [] := by
  cases h <;> simp

private theorem Spelling.isEscaped (h : Spelling c text) : IsEscaped text := by
  cases h with
  | itself hplain => exact .plain hplain .nil
  | @shorthand mark hmem =>
    refine .escape ?_ .nil
    have hmarks : shorthands.map Prod.snd ⊆ escapeMarks := by simp [shorthands, escapeMarks]
    exact hmarks (List.mem_map_of_mem hmem)
  | number =>
    have hplain : ∀ d < 16, isPlain (Nat.digitChar d) = true := by decide
    have hdigits : ∀ x ∈ hexDigits c.toNat, isPlain x = true := by
      intro x hx
      obtain ⟨d, hd, rfl⟩ := mem_hexDigits hx
      exact hplain d hd
    refine .escape (by decide) (.plain (by decide) ?_)
    exact (IsEscaped.of_plain hdigits).append (.plain (by decide) .nil)

private theorem mark_ne_number {mark : Char} (h : (c, mark) ∈ shorthands) : mark ≠ 'u' := by
  rintro rfl
  simp [shorthands] at h

private theorem shorthand_unique {mark : Char} (h : (c, mark) ∈ shorthands)
    (h' : (d, mark) ∈ shorthands) :
    c = d := by
  simp only [shorthands, List.mem_cons, Prod.mk.injEq, List.not_mem_nil, or_false] at h h'
  rcases h with ⟨rfl, rfl⟩ | ⟨rfl, rfl⟩ | ⟨rfl, rfl⟩ | ⟨rfl, rfl⟩ | ⟨rfl, rfl⟩ | ⟨rfl, rfl⟩ <;>
    simpa [eq_comm] using h'

/-- The digits of a number end at the closing brace. -/
theorem number_unique
    (h : hexDigits c.toNat ++ '\x7d' :: rest = hexDigits d.toNat ++ '\x7d' :: rest') :
    c = d ∧ rest = rest' := by
  have hbrace : ∀ d < 16, (Nat.digitChar d != '\x7d') = true := by decide
  have hdigits : ∀ n, ∀ x ∈ hexDigits n, (x != '\x7d') = true := by
    intro n x hx
    obtain ⟨d, hd, rfl⟩ := mem_hexDigits hx
    exact hbrace d hd
  obtain ⟨hsame, hrest⟩ := Token.eq_of_append_eq h (hdigits _) (hdigits _) (by simp) (by simp)
  exact ⟨Char.toNat_inj.1 (hexDigits_injective hsame), (List.cons.inj hrest).2⟩

/-- A character is told by the text that begins with its spelling, and so is where that ends. -/
theorem Spelling.append_inj (h : Spelling c text) (h' : Spelling d text')
    (heq : text ++ rest = text' ++ rest') : c = d ∧ rest = rest' := by
  cases h <;> cases h' <;>
    simp only [List.cons_append, List.nil_append, List.append_assoc, List.cons.injEq,
      true_and] at heq
  case itself.itself => exact heq
  case shorthand.shorthand hmem _ hmem' =>
    obtain ⟨rfl, hrest⟩ := heq
    exact ⟨shorthand_unique hmem hmem', hrest⟩
  case number.number => exact number_unique heq
  case shorthand.number hmem => exact absurd heq.1 (mark_ne_number hmem)
  case number.shorthand hmem => exact absurd heq.1.symm (mark_ne_number hmem)
  -- A character that is written as itself is no backslash, and all escapes begin with one.
  case itself.shorthand hplain _ _ | itself.number hplain =>
    obtain ⟨rfl, -⟩ := heq
    exact absurd hplain (by decide)
  case shorthand.itself hplain | number.itself hplain =>
    obtain ⟨rfl, -⟩ := heq
    exact absurd hplain (by decide)

end Spelling

/-! ## Quoted text -/

private theorem escapes_injective {text text' : List Char}
    (h : text.flatMap (escape '\"') = text'.flatMap (escape '\"')) : text = text' := by
  induction text generalizing text' with
  | nil =>
    cases text' with
    | nil => rfl
    | cons d rest' =>
      rw [List.flatMap_nil, List.flatMap_cons] at h
      exact absurd (List.append_eq_nil_iff.1 h.symm).1 (spelling_escape d).ne_nil
  | cons c rest ih =>
    cases text' with
    | nil =>
      rw [List.flatMap_nil, List.flatMap_cons] at h
      exact absurd (List.append_eq_nil_iff.1 h).1 (spelling_escape c).ne_nil
    | cons d rest' =>
      rw [List.flatMap_cons, List.flatMap_cons] at h
      obtain ⟨rfl, hrest⟩ := (spelling_escape c).append_inj (spelling_escape d) h
      rw [ih hrest]

private theorem toList_quoted (text : String) :
    (quoted text).toList = '\"' :: (text.toList.flatMap (escape '\"') ++ ['\"']) := by
  simp [quoted, quotedWith]

/-- A text is told by its quoted form. -/
theorem quoted_injective : Function.Injective quoted := by
  intro text text' h
  have hchars := congrArg String.toList h
  rw [toList_quoted, toList_quoted] at hchars
  have hescapes := List.append_cancel_right (List.cons.inj hchars).2
  exact String.toList_inj.1 (escapes_injective hescapes)

private theorem isEscaped_escapes (text : List Char) : IsEscaped (text.flatMap (escape '\"')) := by
  induction text with
  | nil => exact .nil
  | cons c rest ih =>
    rw [List.flatMap_cons]
    exact (spelling_escape c).isEscaped.append ih

/-- What stands between the quotes is escaped. -/
theorem quoted_isEscaped (text : String) :
    ∃ body, (quoted text).toList = '\"' :: (body ++ ['\"']) ∧ IsEscaped body :=
  ⟨_, toList_quoted text, isEscaped_escapes _⟩

end Tabletop.Text
