import Tabletop.Instruction.Decode

/-!
# Bytes and what they stand for

Facts about the bytes of texts and targets, and the condition under which an instruction can be
told from its bytes: a text must not hold the terminator, and a name must be ASCII and none of the
two that are followed by a target.
-/

namespace Tabletop

/-! ## Texts -/

namespace Text

theorem utf8_eq_flatMap (text : String) :
    utf8 text = text.toList.flatMap String.utf8EncodeChar := by
  rw [utf8, String.toUTF8_eq_toByteArray, ← String.utf8Encode_toList, List.utf8Encode]
  simp

private theorem utf8EncodeChar_of_lt {c : Char} (h : c.toNat < 128) :
    String.utf8EncodeChar c = [UInt8.ofNat c.toNat] := by
  have hle : c.val.toNat ≤ 0x7f := Nat.le_of_lt_succ h
  unfold String.utf8EncodeChar
  simp only [hle, if_true]
  rfl

/-- Every byte of a character beyond ASCII has its highest bit set. -/
theorem le_of_mem_utf8EncodeChar {c : Char} {byte : UInt8} (h : 128 ≤ c.toNat)
    (hmem : byte ∈ String.utf8EncodeChar c) : 128 ≤ byte := by
  have hgt : ¬ c.val.toNat ≤ 0x7f := by
    have : c.toNat = c.val.toNat := rfl
    omega
  simp only [String.utf8EncodeChar, if_neg hgt] at hmem
  split at hmem
  -- Characters of two, three and four bytes.
  · simp at hmem
    rcases hmem with rfl | rfl <;> simp [UInt8.le_iff_toNat_le] <;> omega
  · split at hmem <;> simp at hmem
    · rcases hmem with rfl | rfl | rfl <;> simp [UInt8.le_iff_toNat_le] <;> omega
    · rcases hmem with rfl | rfl | rfl | rfl <;> simp [UInt8.le_iff_toNat_le] <;> omega

private theorem mem_utf8EncodeChar_of_lt {c : Char} {byte : UInt8} (h : byte < 128) :
    byte ∈ String.utf8EncodeChar c ↔ c.toNat = byte.toNat := by
  have hbyte : byte.toNat < 128 := by simpa [UInt8.lt_iff_toNat_lt] using h
  by_cases hc : c.toNat < 128
  · rw [utf8EncodeChar_of_lt hc, List.mem_singleton, ← UInt8.toNat_inj, UInt8.toNat_ofNat']
    omega
  · constructor
    · intro hmem
      have hle := le_of_mem_utf8EncodeChar (Nat.le_of_not_lt hc) hmem
      simp only [UInt8.le_iff_toNat_le, UInt8.reduceToNat] at hle
      omega
    · omega

/-- An ASCII character is its own byte, which no other character holds. -/
theorem mem_utf8_of_lt {c : Char} (h : c.toNat < 128) {text : String} :
    UInt8.ofNat c.toNat ∈ utf8 text ↔ c ∈ text.toList := by
  have hbyte : (UInt8.ofNat c.toNat).toNat = c.toNat := by
    rw [UInt8.toNat_ofNat']
    omega
  have hlt : UInt8.ofNat c.toNat < 128 := by
    rw [UInt8.lt_iff_toNat_lt, hbyte]
    exact h
  rw [utf8_eq_flatMap, List.mem_flatMap]
  constructor
  · rintro ⟨c', hc', hmem⟩
    have heq : c'.toNat = c.toNat := ((mem_utf8EncodeChar_of_lt hlt).1 hmem).trans hbyte
    rwa [Char.toNat_inj.1 heq] at hc'
  · intro hmem
    exact ⟨c, hmem, (mem_utf8EncodeChar_of_lt hlt).2 hbyte.symm⟩

theorem terminator_mem_utf8 {text : String} :
    terminator ∈ utf8 text ↔ '\x00' ∈ text.toList :=
  @mem_utf8_of_lt '\x00' (by decide) text

private theorem isAscii_utf8 {text : String} :
    isAscii (utf8 text) = true ↔ ∀ c ∈ text.toList, c.toNat < 128 := by
  simp only [isAscii, utf8_eq_flatMap, List.all_eq_true, List.mem_flatMap, decide_eq_true_eq]
  constructor
  · intro h c hc
    obtain ⟨byte, rest, hcons⟩ := List.exists_cons_of_ne_nil (String.utf8EncodeChar_ne_nil (c := c))
    have hmem : byte ∈ String.utf8EncodeChar c := by simp [hcons]
    have hbyte := h byte ⟨c, hc, hmem⟩
    have := (mem_utf8EncodeChar_of_lt hbyte).1 hmem
    simp only [UInt8.lt_iff_toNat_lt, UInt8.reduceToNat] at hbyte
    omega
  · rintro h byte ⟨c, hc, hmem⟩
    rw [utf8EncodeChar_of_lt (h c hc), List.mem_singleton] at hmem
    have := h c hc
    subst hmem
    simp only [UInt8.lt_iff_toNat_lt, UInt8.toNat_ofNat', UInt8.reduceToNat]
    omega

end Text

/-! ## Targets -/

theorem toNat_target {offset : Nat} (h : offset ≤ farthestTarget) :
    (UInt16.ofNat offset).toNat = offset :=
  UInt16.toNat_ofNat_of_lt' (Nat.lt_succ_of_le h)

private theorem toNat_targetOfBytes (high low : UInt8) :
    (targetOfBytes high low).toNat = high.toNat * 256 + low.toNat := by
  have hlow : low.toNat < 2 ^ 8 := low.toNat_lt
  have hhigh : high.toNat < 2 ^ 8 := high.toNat_lt
  simp only [targetOfBytes, UInt16.toNat_or, UInt16.toNat_shiftLeft, UInt8.toNat_toUInt16,
    UInt16.reduceToNat, Nat.reduceMod]
  rw [Nat.mod_eq_of_lt (by rw [Nat.shiftLeft_eq]; omega), ← Nat.shiftLeft_add_eq_or_of_lt hlow,
    Nat.shiftLeft_eq]

@[simp] theorem encodeTarget_targetOfBytes (high low : UInt8) :
    encodeTarget (targetOfBytes high low) = [high, low] := by
  have htarget := toNat_targetOfBytes high low
  have hlow : low.toNat < 256 := low.toNat_lt
  have hhigh : high.toNat < 256 := high.toNat_lt
  simp only [encodeTarget, List.cons.injEq, and_true, ← UInt8.toNat_inj, UInt16.toNat_toUInt8,
    UInt16.toNat_shiftRight, UInt16.reduceToNat, Nat.reduceMod, Nat.shiftRight_eq_div_pow, htarget]
  omega

@[simp] theorem targetOfBytes_encodeTarget (target : UInt16) :
    targetOfBytes (target >>> 8).toUInt8 target.toUInt8 = target := by
  have htarget : target.toNat < 65536 := target.toNat_lt
  rw [← UInt16.toNat_inj, toNat_targetOfBytes]
  simp only [UInt16.toNat_toUInt8, UInt16.toNat_shiftRight, UInt16.reduceToNat, Nat.reduceMod,
    Nat.shiftRight_eq_div_pow]
  omega

/-! ## What can be read back -/

/-- A name that can be read back from its bytes. -/
def IsName (name : String) : Prop := ∀ c ∈ name.toList, c.toNat < 128 ∧ c ≠ '\x00'

theorem isName_iff {name : String} :
    IsName name ↔ Text.isAscii (Text.utf8 name) = true ∧ terminator ∉ Text.utf8 name := by
  rw [Text.isAscii_utf8, Text.terminator_mem_utf8]
  constructor
  · intro h
    exact ⟨fun c hc => (h c hc).1, fun hmem => (h _ hmem).2 rfl⟩
  · rintro ⟨hascii, hzero⟩ c hc
    exact ⟨hascii c hc, fun h => hzero (h ▸ hc)⟩

/-- A literal that can be read back from its bytes. -/
def Literal.Encodable : Literal → Prop
  | .string s => '\x00' ∉ s.toList
  | _ => True

namespace Instruction

/-- A head that can be read back from its bytes. -/
def Head.Encodable : Head → Prop
  | .push literal => literal.Encodable
  | .exec name => IsName name

def Head.encode : Head → Code
  | .push literal => Opcode.push.toByte :: literal.encode
  | .exec name => encodeCall name

theorem Head.encode_ne_nil (head : Head) : head.encode ≠ [] := by
  cases head <;> simp [encode, encodeCall]

theorem isName_branchName : IsName branchName := by
  simp [IsName, branchName]

theorem isName_jumpName : IsName jumpName := by
  simp [IsName, jumpName]

/-- An instruction that can be read back from its bytes. -/
def Encodable : Instruction → Prop
  | .push literal => literal.Encodable
  | .exec name => IsName name ∧ name ≠ branchName ∧ name ≠ jumpName
  | .branch _ => True
  | .jump _ => True

/-- The target that an instruction carries. -/
def target? : Instruction → Option UInt16
  | .branch target => some target
  | .jump target => some target
  | _ => none

/-- An instruction without its target. -/
def head : Instruction → Head
  | .push literal => .push literal
  | .exec name => .exec name
  | .branch _ => .exec branchName
  | .jump _ => .exec jumpName

/-- The bytes of the target, if there is one. -/
def operand : Instruction → Code
  | .branch target => encodeTarget target
  | .jump target => encodeTarget target
  | _ => []

theorem encode_eq_head_append (instruction : Instruction) :
    instruction.encode = instruction.head.encode ++ instruction.operand := by
  cases instruction <;> simp [encode, head, Head.encode, operand]

theorem Encodable.head {instruction : Instruction} (h : instruction.Encodable) :
    instruction.head.Encodable := by
  cases instruction with
  | push literal => exact h
  | exec name => exact h.1
  | branch target => exact isName_branchName
  | jump target => exact isName_jumpName

theorem size_pos (instruction : Instruction) : 0 < instruction.size := by
  cases instruction <;> simp [size]

/-! ## Instructions that follow one another -/

@[simp] theorem encodeAll_nil : encodeAll [] = [] := rfl

@[simp] theorem encodeAll_cons (instruction : Instruction) (rest : List Instruction) :
    encodeAll (instruction :: rest) = instruction.encode ++ encodeAll rest := by
  simp [encodeAll]

@[simp] theorem encodeAll_append (front back : List Instruction) :
    encodeAll (front ++ back) = encodeAll front ++ encodeAll back := by
  simp [encodeAll]

theorem encode_ne_nil (instruction : Instruction) : instruction.encode ≠ [] := by
  rw [← List.length_pos_iff, length_encode]
  exact instruction.size_pos

theorem encodeAll_eq_nil {instructions : List Instruction} :
    encodeAll instructions = [] ↔ instructions = [] := by
  cases instructions with
  | nil => simp
  | cons instruction rest => simp [encode_ne_nil]

/-- Instructions with their offsets, the first of which is given. -/
def numbered : Nat → List Instruction → List (Nat × Instruction)
  | _, [] => []
  | offset, instruction :: rest =>
    (offset, instruction) :: numbered (offset + instruction.size) rest

end Instruction

end Tabletop
