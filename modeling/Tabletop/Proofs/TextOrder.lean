import Mathlib.Algebra.Group.Nat.Defs
import Tabletop.Proofs.Encoding

/-!
# Texts and their bytes

UTF-8 keeps the order of texts: compared byte by byte, texts are in the order in which they are
compared character by character (`precedes_of_lt`). For characters this is because the first byte
grows with the code point and tells how many bytes follow, and these hold its lower bits from the
highest on. A text has no fewer bytes than characters (`length_le_utf8ByteSize`).
-/

namespace Tabletop.Text

/-! ## The bytes of a character -/

/-- The first byte of a character. -/
def leading (v : Nat) : Nat :=
  if v ≤ 0x7f then v
  else if v ≤ 0x7ff then v / 64 + 0xc0
  else if v ≤ 0xffff then v / 4096 + 0xe0
  else v / 262144 + 0xf0

/-- How many bytes of a character follow the first one. -/
def trailing (v : Nat) : Nat :=
  if v ≤ 0x7f then 0 else if v ≤ 0x7ff then 1 else if v ≤ 0xffff then 2 else 3

/-- The lowest `k` groups of six bits, with a byte for each. -/
def sixBits (v : Nat) : Nat → List UInt8
  | 0 => []
  | k + 1 => UInt8.ofNat (v / 64 ^ k % 64 + 0x80) :: sixBits v k

theorem toNat_lt (c : Char) : c.toNat < 0x110000 := by
  rcases c.valid with hlow | hhigh
  · exact Nat.lt_trans hlow (by decide)
  · exact hhigh.2

private theorem utf8EncodeChar_eq (c : Char) :
    String.utf8EncodeChar c =
      UInt8.ofNat (leading c.toNat) :: sixBits c.toNat (trailing c.toNat) := by
  have hmax := toNat_lt c
  have hval : c.val.toNat = c.toNat := rfl
  unfold String.utf8EncodeChar leading trailing
  simp only [hval]
  split
  · rfl
  · split
    · rw [Nat.mod_eq_of_lt (show c.toNat / 64 < 32 by omega)]
      simp [sixBits]
    · split
      · rw [Nat.mod_eq_of_lt (show c.toNat / 4096 < 16 by omega)]
        simp [sixBits]
      · rw [Nat.mod_eq_of_lt (show c.toNat / 262144 < 8 by omega)]
        simp [sixBits]

/-- A text has no more characters than bytes. -/
theorem length_le_utf8ByteSize (text : String) : text.length ≤ text.utf8ByteSize := by
  rw [← length_utf8, utf8_eq_flatMap, ← String.length_toList]
  induction text.toList with
  | nil => exact Nat.le_refl 0
  | cons c rest ih =>
    rw [List.flatMap_cons, utf8EncodeChar_eq, List.length_append, List.length_cons,
      List.length_cons]
    omega

/-! ## Order -/

/-- A lower first byte decides. With the same one the bytes behind it do. -/
theorem ofNat_cons_lt {a b : Nat} {l m : List UInt8} (hb : b < 256)
    (h : a < b ∨ a = b ∧ l < m) : UInt8.ofNat a :: l < UInt8.ofNat b :: m := by
  rw [List.cons_lt_cons_iff]
  rcases h with hlt | ⟨rfl, hlt⟩
  · left
    rw [UInt8.lt_iff_toNat_lt, UInt8.toNat_ofNat', UInt8.toNat_ofNat']
    omega
  · exact .inr ⟨rfl, hlt⟩

private theorem leading_le {v w : Nat} (h : v ≤ w) : leading v ≤ leading w := by
  grind [leading]

private theorem leading_lt {v : Nat} (h : v < 0x110000) : leading v < 256 := by
  grind [leading]

/-- The first byte tells how many follow, and the bits that these do not hold. -/
theorem trailing_eq {v w : Nat} (h : leading v = leading w) (hle : v ≤ w) :
    trailing v = trailing w ∧ v / 64 ^ trailing v = w / 64 ^ trailing v := by
  grind [leading, trailing]

private theorem sixBits_lt {v w k : Nat} (hhigh : v / 64 ^ k = w / 64 ^ k) (hlt : v < w)
    (s t : List UInt8) : sixBits v k ++ s < sixBits w k ++ t := by
  -- From the highest group down: either this group decides, or it joins the bits that agree.
  induction k with
  | zero =>
    simp only [Nat.pow_zero, Nat.div_one] at hhigh
    omega
  | succ k ih =>
    rw [Nat.pow_succ, ← Nat.div_div_eq_div_mul, ← Nat.div_div_eq_div_mul] at hhigh
    have hle : v / 64 ^ k ≤ w / 64 ^ k := Nat.div_le_div_right (Nat.le_of_lt hlt)
    refine ofNat_cons_lt (by omega) ?_
    by_cases hgroup : v / 64 ^ k % 64 < w / 64 ^ k % 64
    · exact .inl (by omega)
    · exact .inr ⟨by omega, ih (by omega)⟩

/-- The bytes of a lower character come first, whatever follows. -/
theorem utf8EncodeChar_lt {c d : Char} (h : c < d) (s t : List UInt8) :
    String.utf8EncodeChar c ++ s < String.utf8EncodeChar d ++ t := by
  have hlt : c.toNat < d.toNat := h
  have hle := leading_le (Nat.le_of_lt hlt)
  rw [utf8EncodeChar_eq, utf8EncodeChar_eq]
  refine ofNat_cons_lt (leading_lt (toNat_lt d)) ?_
  by_cases hfirst : leading c.toNat < leading d.toNat
  · exact .inl hfirst
  · have heq : leading c.toNat = leading d.toNat := by omega
    obtain ⟨htrailing, hhigh⟩ := trailing_eq heq (Nat.le_of_lt hlt)
    rw [← htrailing]
    exact .inr ⟨heq, sixBits_lt hhigh hlt s t⟩

/-- The bytes of the first text come before those of the second in the order of byte strings. -/
def Precedes (a b : String) : Prop := utf8 a < utf8 b

instance : Std.Irrefl Precedes := ⟨fun a => List.lt_irrefl (utf8 a)⟩

instance : Std.Antisymm Precedes := ⟨fun _ _ h h' => absurd h' (List.lt_asymm h)⟩

/-- The bytes of texts are in the order of the texts. -/
theorem precedes_of_lt {a b : String} (h : a < b) : Precedes a b := by
  rw [Precedes, utf8_eq_flatMap, utf8_eq_flatMap]
  have hlex : List.Lex (· < ·) a.toList b.toList := h
  generalize a.toList = l at hlex
  generalize b.toList = m at hlex
  induction hlex with
  | nil =>
    rw [List.flatMap_cons, utf8EncodeChar_eq]
    exact List.nil_lt_cons _ _
  | rel hlt => exact utf8EncodeChar_lt hlt _ _
  | cons _ ih => exact List.append_left_lt ih

end Tabletop.Text
