import Tabletop.Proofs.Effect
import Tabletop.Proofs.Encoding

/-!
# Reading is the inverse of writing

A read succeeds exactly if the cursor has the bytes of the result in front of it, and then it moves
just past them. This holds of every part of an instruction (`readLiteral_eq_ok`, `readName_eq_ok`,
`readTarget_eq_ok`), so of instructions (`read_eq_ok`), and so of whole pieces of code:
`decode_eq_ok` says that code can be decoded exactly if it is the encoding of instructions that can
be read back.

Failing reads move ahead too, as far as they got (`Cursor.Ahead`).
-/

namespace Tabletop

namespace Cursor

variable {α β : Type}

/-! ## Moving past items -/

/-- The second cursor stands just past some items that the first has in front of it. -/
structure Past (cursor : Cursor α) (passed : List α) (cursor' : Cursor α) : Prop where
  items : cursor'.items = cursor.items
  rest : cursor.rest = passed ++ cursor'.rest

theorem Past.size {cursor cursor' : Cursor α} {passed : List α} (h : cursor.Past passed cursor') :
    cursor'.size = cursor.size := by
  rw [cursor'.size_eq, cursor.size_eq, h.items]

theorem Past.position {cursor cursor' : Cursor α} {passed : List α}
    (h : cursor.Past passed cursor') : cursor'.position = cursor.position + passed.length := by
  have hlength := congrArg List.length h.rest
  rw [List.length_append, length_rest, length_rest] at hlength
  have hle := cursor.position_le
  have hle' := cursor'.position_le
  have hsize := h.size
  unfold remaining at hlength
  omega

theorem Past.unique {cursor cursor₁ cursor₂ : Cursor α} {passed : List α}
    (h₁ : cursor.Past passed cursor₁) (h₂ : cursor.Past passed cursor₂) : cursor₁ = cursor₂ :=
  ext (h₁.items.trans h₂.items.symm) (h₁.position.trans h₂.position.symm)

theorem past_nil {cursor cursor' : Cursor α} : cursor.Past [] cursor' ↔ cursor' = cursor := by
  constructor
  · intro h
    exact ext h.items h.position
  · rintro rfl
    exact ⟨rfl, rfl⟩

private theorem past_ahead {cursor : Cursor α} {passed rest : List α} {n : Nat}
    (h : n ≤ cursor.remaining)
    (hrest : cursor.rest = passed ++ rest) (hn : n = passed.length) :
    cursor.Past passed (cursor.ahead n h) := by
  refine ⟨rfl, ?_⟩
  have hdrop : (cursor.ahead n h).rest = rest := by
    simp only [ahead, hrest, hn, List.drop_left]
  rw [hdrop, hrest]

/-- Items in front of a cursor can be moved past. -/
theorem exists_past {cursor : Cursor α} {passed rest : List α} (h : cursor.rest = passed ++ rest) :
    ∃ cursor', cursor.Past passed cursor' ∧ cursor'.rest = rest := by
  have hle : passed.length ≤ cursor.remaining := by
    rw [← length_rest, h, List.length_append]
    omega
  have hpast := past_ahead hle h rfl
  refine ⟨_, hpast, ?_⟩
  exact List.append_cancel_left (hpast.rest.symm.trans h)

theorem past_append {cursor cursor' : Cursor α} {front back : List α} :
    cursor.Past (front ++ back) cursor' ↔
      ∃ middle, cursor.Past front middle ∧ middle.Past back cursor' := by
  constructor
  · intro h
    have hrest : cursor.rest = front ++ (back ++ cursor'.rest) := by
      rw [h.rest, List.append_assoc]
    obtain ⟨middle, hfront, hmiddle⟩ := exists_past hrest
    exact ⟨middle, hfront, h.items.trans hfront.items.symm, hmiddle⟩
  · rintro ⟨middle, hfront, hback⟩
    refine ⟨hback.items.trans hfront.items, ?_⟩
    rw [hfront.rest, hback.rest, List.append_assoc]

private theorem past_cons {cursor cursor' : Cursor α} {item : α} {items : List α} :
    cursor.Past (item :: items) cursor' ↔
      ∃ middle, cursor.Past [item] middle ∧ middle.Past items cursor' :=
  @past_append _ cursor cursor' [item] items

theorem hasNext_iff {cursor : Cursor α} : cursor.hasNext = true ↔ 0 < cursor.remaining := by
  simp only [hasNext, remaining, decide_eq_true_eq]
  omega

theorem rest_eq_nil_iff {cursor : Cursor α} : cursor.rest = [] ↔ cursor.hasNext = false := by
  rw [← List.length_eq_zero_iff, length_rest, ← Bool.not_eq_true, hasNext_iff]
  omega

theorem Past.hasNext {cursor cursor' : Cursor α} {passed : List α} (h : cursor.Past passed cursor')
    (hne : passed ≠ []) : cursor.hasNext = true := by
  have hlength := congrArg List.length h.rest
  have hpos := List.length_pos_iff.2 hne
  rw [List.length_append, length_rest] at hlength
  rw [hasNext_iff]
  omega

/-! ## Moving ahead -/

/-- The second cursor reads the same items and stands no earlier, and not beyond the end. -/
def Ahead (cursor cursor' : Cursor α) : Prop :=
  cursor'.items = cursor.items ∧ cursor.position ≤ cursor'.position ∧
    cursor'.position ≤ cursor'.items.length

theorem position_le_length (cursor : Cursor α) : cursor.position ≤ cursor.items.length :=
  cursor.size_eq ▸ cursor.position_le

theorem Past.ahead {cursor cursor' : Cursor α} {passed : List α} (h : cursor.Past passed cursor') :
    cursor.Ahead cursor' :=
  ⟨h.items, by rw [h.position]; omega, cursor'.position_le_length⟩

private theorem ahead_ahead (cursor : Cursor α) {n : Nat} (h : n ≤ cursor.remaining) :
    cursor.Ahead (cursor.ahead n h) :=
  ⟨rfl, Nat.le_add_right _ _, position_le_length _⟩

instance : IsPreorder (Cursor α) Ahead where
  refl cursor := ⟨rfl, Nat.le_refl _, cursor.position_le_length⟩
  trans _ _ _ h₁ h₂ := ⟨h₂.1.trans h₁.1, Nat.le_trans h₁.2.1 h₂.2.1, h₂.2.2⟩

theorem Ahead.size {cursor cursor' : Cursor α} (h : cursor.Ahead cursor') :
    cursor'.size = cursor.size := by
  rw [cursor'.size_eq, cursor.size_eq, h.1]

/-- Reading moves ahead, whether it fails or not. -/
abbrev Forward (read : Read α β) : Prop := Ensures read Ahead fun _ => True

private theorem here_eq_ok {cursor cursor' : Cursor α} {position : Nat} :
    here cursor = .ok position cursor' ↔ position = cursor.position ∧ cursor' = cursor := by
  unfold here
  constructor
  · intro h
    cases h
    exact ⟨rfl, rfl⟩
  · rintro ⟨rfl, rfl⟩
    rfl

private theorem here_forward : Forward (here : Read α Nat) := fun cursor => refl_of Ahead cursor

theorem next_of_nil {cursor : Cursor α} (h : cursor.rest = []) :
    next cursor = .error (.exhausted cursor.position) cursor := by
  unfold next
  split
  · rfl
  · rename_i hcons
    rw [h] at hcons
    cases hcons

theorem next_of_cons {cursor : Cursor α} {item : α} {rest : List α}
    (h : cursor.rest = item :: rest) : ∃ hle, next cursor = .ok item (cursor.ahead 1 hle) := by
  unfold next
  split
  · rename_i hnil
    rw [h] at hnil
    cases hnil
  · rename_i item' rest' hcons
    rw [h] at hcons
    cases hcons
    exact ⟨by rw [← length_rest, h]; simp, rfl⟩

theorem next_eq_ok {cursor cursor' : Cursor α} {item : α} :
    next cursor = .ok item cursor' ↔ cursor.Past [item] cursor' := by
  cases hrest : cursor.rest with
  | nil =>
    rw [next_of_nil hrest]
    constructor
    · intro h
      cases h
    · intro h
      have := h.rest
      rw [hrest] at this
      cases this
  | cons item' rest =>
    obtain ⟨hle, hnext⟩ := next_of_cons hrest
    have hpast : cursor.Past [item'] (cursor.ahead 1 hle) := past_ahead hle hrest rfl
    rw [hnext]
    constructor
    · intro h
      cases h
      exact hpast
    · intro h
      have hitem := h.rest
      rw [hrest] at hitem
      cases hitem
      rw [hpast.unique h]

theorem next_forward : Forward (next : Read α α) := by
  intro cursor
  cases hrest : cursor.rest with
  | nil =>
    rw [next_of_nil hrest]
    exact ⟨refl_of Ahead cursor, trivial⟩
  | cons item rest =>
    obtain ⟨hle, hnext⟩ := next_of_cons hrest
    rw [hnext]
    exact cursor.ahead_ahead hle

theorem advanceTo_forward (target : Nat) : Forward (advanceTo target : Read α Unit) := by
  intro cursor
  unfold advanceTo
  by_cases h : cursor.position ≤ target ∧ target ≤ cursor.size
  · rw [dif_pos h]
    exact ahead_ahead cursor _
  · rw [dif_neg h]
    exact ⟨refl_of Ahead cursor, trivial⟩

theorem advanceTo_of_le {cursor : Cursor α} {target : Nat} (h : cursor.position ≤ target)
    (h' : target ≤ cursor.size) :
    ∃ cursor', advanceTo target cursor = .ok () cursor' ∧ cursor'.items = cursor.items ∧
      cursor'.position = target := by
  unfold advanceTo
  rw [dif_pos ⟨h, h'⟩]
  refine ⟨_, rfl, rfl, ?_⟩
  simp only [ahead]
  omega

theorem readUntil_forward [BEq α] (stop : α) : Forward (readUntil stop) := by
  intro cursor
  unfold readUntil
  by_cases h : (cursor.rest.takeWhile (· != stop)).length < cursor.remaining
  · rw [dif_pos h]
    exact ahead_ahead cursor _
  · rw [dif_neg h]
    exact ⟨ahead_ahead cursor _, trivial⟩

private theorem readUntil_eq_ok [BEq α] [LawfulBEq α] {stop : α} {cursor cursor' : Cursor α}
    {items : List α} : readUntil stop cursor = .ok items cursor' ↔
      stop ∉ items ∧ cursor.Past (items ++ [stop]) cursor' := by
  unfold readUntil
  dsimp only
  constructor
  · intro h
    split at h
    · rename_i hlt
      cases h
      have hmem : stop ∉ cursor.rest.takeWhile (· != stop) := by
        intro hmem
        have hall := List.all_takeWhile (p := (· != stop)) (l := cursor.rest)
        simpa using List.all_eq_true.1 hall stop hmem
      have hsplit := List.takeWhile_append_dropWhile (p := (· != stop)) (l := cursor.rest)
      -- What is left begins with the item that stopped the reading.
      cases hdrop : cursor.rest.dropWhile (· != stop) with
      | nil =>
        rw [hdrop, List.append_nil] at hsplit
        rw [hsplit, length_rest] at hlt
        omega
      | cons item rest =>
        have hitem : item = stop := by
          have := List.head_dropWhile_not (· != stop) (l := cursor.rest) (by simp [hdrop])
          simpa [hdrop] using this
        have hrest : cursor.rest = (cursor.rest.takeWhile (· != stop) ++ [stop]) ++ rest := by
          rw [hdrop, hitem] at hsplit
          simpa using hsplit.symm
        exact ⟨hmem, past_ahead _ hrest (by simp)⟩
    · cases h
  · rintro ⟨hmem, h⟩
    have hitems : cursor.rest.takeWhile (· != stop) = items := by
      rw [h.rest, List.append_assoc, List.takeWhile_append_of_pos]
      · simp
      · intro item hitem
        simp only [bne_iff_ne]
        intro heq
        exact hmem (heq ▸ hitem)
    have hlt : (cursor.rest.takeWhile (· != stop)).length < cursor.remaining := by
      rw [hitems, ← length_rest, h.rest]
      simp
    rw [dif_pos hlt]
    have hpast : cursor.Past (items ++ [stop]) (cursor.ahead _ hlt) :=
      past_ahead hlt h.rest (by simp [hitems])
    rw [hpast.unique h]
    simp only [hitems]

end Cursor

/-! ## Tags, opcodes and directions -/

/-- In a list of things where each is found by its code, a thing is found by no other code. -/
theorem find?_code_eq_some {α κ : Type} [BEq κ] [LawfulBEq κ] {things : List α} {code : α → κ}
    (h : ∀ a, things.find? (code · == code a) = some a) {k : κ} {a : α} :
    things.find? (code · == k) = some a ↔ k = code a := by
  constructor
  · intro hfind
    have hcode := List.find?_some hfind
    exact (eq_of_beq hcode).symm
  · rintro rfl
    exact h a

private theorem Kind.ofTag?_eq_some {tag : UInt8} {kind : Kind} :
    Kind.ofTag? tag = some kind ↔ tag = kind.tag :=
  find?_code_eq_some Kind.ofTag?_tag

private theorem Opcode.ofByte?_eq_some {byte : UInt8} {op : Opcode} :
    Opcode.ofByte? byte = some op ↔ byte = op.toByte :=
  find?_code_eq_some Opcode.ofByte?_toByte

private theorem Direction.ofByte?_eq_some {byte : UInt8} {d : Direction} :
    Direction.ofByte? byte = some d ↔ byte = d.toByte :=
  find?_code_eq_some Direction.ofByte?_toByte

namespace Instruction

open Cursor

variable {cursor cursor' : Cursor UInt8}

/-! ## The parts of an instruction -/

theorem readTarget_eq_ok {target : UInt16} :
    readTarget cursor = .ok target cursor' ↔ cursor.Past (encodeTarget target) cursor' := by
  constructor
  · intro h
    obtain ⟨high, middle, hhigh, h⟩ := bind_eq_ok_iff.1 h
    obtain ⟨low, last, hlow, h⟩ := bind_eq_ok_iff.1 h
    cases h
    rw [encodeTarget_targetOfBytes]
    exact past_cons.2 ⟨middle, next_eq_ok.1 hhigh, next_eq_ok.1 hlow⟩
  · intro h
    obtain ⟨middle, hhigh, hlow⟩ := past_cons.1 h
    unfold readTarget
    rw [bind_eq_of_ok (next_eq_ok.2 hhigh), bind_eq_of_ok (next_eq_ok.2 hlow),
      targetOfBytes_encodeTarget]
    rfl

theorem readName_eq_ok {name : String} :
    readName cursor = .ok name cursor' ↔
      IsName name ∧ cursor.Past (Text.utf8 name ++ [terminator]) cursor' := by
  rw [isName_iff]
  constructor
  · intro h
    obtain ⟨_, _, hhere, h⟩ := bind_eq_ok_iff.1 h
    cases hhere
    obtain ⟨bytes, last, hbytes, h⟩ := bind_eq_ok_iff.1 h
    obtain ⟨hmem, hpast⟩ := readUntil_eq_ok.1 hbytes
    by_cases hascii : Text.isAscii bytes = true
    · rw [if_pos hascii] at h
      cases hname : Text.ofUtf8? bytes with
      | none =>
        rw [hname] at h
        cases h
      | some name' =>
        rw [hname] at h
        cases h
        rw [Text.utf8_of_ofUtf8? hname]
        exact ⟨⟨hascii, hmem⟩, hpast⟩
    · rw [if_neg hascii] at h
      cases h
  · rintro ⟨⟨hascii, hmem⟩, hpast⟩
    unfold readName
    rw [bind_eq_of_ok (here_eq_ok.2 ⟨rfl, rfl⟩), bind_eq_of_ok (readUntil_eq_ok.2 ⟨hmem, hpast⟩),
      if_pos hascii, Text.ofUtf8?_utf8]
    rfl

theorem readLiteral_eq_ok {literal : Literal} :
    readLiteral cursor = .ok literal cursor' ↔
      literal.Encodable ∧ cursor.Past literal.encode cursor' := by
  constructor
  · intro h
    obtain ⟨_, _, hhere, h⟩ := bind_eq_ok_iff.1 h
    cases hhere
    -- The tag fixes the kind, and the kind what is read behind it.
    obtain ⟨tag, middle, htag, h⟩ := bind_eq_ok_iff.1 h
    rw [next_eq_ok] at htag
    cases hkind : Kind.ofTag? tag with
    | none =>
      rw [hkind] at h
      cases h
    | some kind =>
      rw [hkind] at h
      obtain rfl := Kind.ofTag?_eq_some.1 hkind
      cases kind with
      | int =>
        obtain ⟨n, last, hn, h⟩ := bind_eq_ok_iff.1 h
        cases h
        exact ⟨trivial, past_cons.2 ⟨middle, htag, next_eq_ok.1 hn⟩⟩
      | direction =>
        obtain ⟨byte, last, hbyte, h⟩ := bind_eq_ok_iff.1 h
        cases hd : Direction.ofByte? byte with
        | none =>
          rw [hd] at h
          cases h
        | some d =>
          rw [hd] at h
          cases h
          obtain rfl := Direction.ofByte?_eq_some.1 hd
          exact ⟨trivial, past_cons.2 ⟨middle, htag, next_eq_ok.1 hbyte⟩⟩
      | bool =>
        obtain ⟨byte, last, hbyte, h⟩ := bind_eq_ok_iff.1 h
        split at h
        · cases h
          exact ⟨trivial, past_cons.2 ⟨middle, htag, next_eq_ok.1 hbyte⟩⟩
        · cases h
          exact ⟨trivial, past_cons.2 ⟨middle, htag, next_eq_ok.1 hbyte⟩⟩
        · cases h
      | string =>
        obtain ⟨bytes, last, hbytes, h⟩ := bind_eq_ok_iff.1 h
        cases hs : Text.ofUtf8? bytes with
        | none =>
          rw [hs] at h
          cases h
        | some s =>
          rw [hs] at h
          cases h
          obtain ⟨hmem, hpast⟩ := readUntil_eq_ok.1 hbytes
          obtain rfl := Text.utf8_of_ofUtf8? hs
          exact ⟨fun hzero => hmem (Text.terminator_mem_utf8.2 hzero),
            past_cons.2 ⟨middle, htag, hpast⟩⟩
  · rintro ⟨hencodable, hpast⟩
    obtain ⟨middle, htag, hpayload⟩ := past_cons.1 hpast
    unfold readLiteral
    rw [bind_eq_of_ok (here_eq_ok.2 ⟨rfl, rfl⟩), bind_eq_of_ok (next_eq_ok.2 htag),
      Kind.ofTag?_tag]
    cases literal with
    | int n => exact bind_eq_of_ok (next_eq_ok.2 hpayload)
    | direction d =>
      refine (bind_eq_of_ok (next_eq_ok.2 hpayload)).trans ?_
      rw [Direction.ofByte?_toByte]
      rfl
    | bool b =>
      refine (bind_eq_of_ok (next_eq_ok.2 hpayload)).trans ?_
      cases b <;> rfl
    | string s =>
      have hmem : terminator ∉ Text.utf8 s := fun h => hencodable (Text.terminator_mem_utf8.1 h)
      refine (bind_eq_of_ok (readUntil_eq_ok.2 ⟨hmem, hpayload⟩)).trans ?_
      rw [Text.ofUtf8?_utf8]
      rfl

/-! ## Heads and instructions -/

theorem readHead_eq_ok {head : Head} :
    readHead cursor = .ok head cursor' ↔ head.Encodable ∧ cursor.Past head.encode cursor' := by
  constructor
  · intro h
    obtain ⟨_, _, hhere, h⟩ := bind_eq_ok_iff.1 h
    cases hhere
    obtain ⟨byte, middle, hbyte, h⟩ := bind_eq_ok_iff.1 h
    rw [next_eq_ok] at hbyte
    cases hop : Opcode.ofByte? byte with
    | none =>
      rw [hop] at h
      cases h
    | some op =>
      rw [hop] at h
      obtain rfl := Opcode.ofByte?_eq_some.1 hop
      cases op with
      | push =>
        obtain ⟨literal, last, hliteral, h⟩ := bind_eq_ok_iff.1 h
        cases h
        obtain ⟨hencodable, hpast⟩ := readLiteral_eq_ok.1 hliteral
        exact ⟨hencodable, past_cons.2 ⟨middle, hbyte, hpast⟩⟩
      | exec =>
        obtain ⟨name, last, hname, h⟩ := bind_eq_ok_iff.1 h
        cases h
        obtain ⟨hencodable, hpast⟩ := readName_eq_ok.1 hname
        exact ⟨hencodable, past_cons.2 ⟨middle, hbyte, hpast⟩⟩
  · rintro ⟨hencodable, hpast⟩
    unfold readHead
    rw [bind_eq_of_ok (here_eq_ok.2 ⟨rfl, rfl⟩)]
    cases head with
    | push literal =>
      obtain ⟨middle, hbyte, hliteral⟩ := past_cons.1 hpast
      rw [bind_eq_of_ok (next_eq_ok.2 hbyte), Opcode.ofByte?_toByte]
      exact bind_eq_of_ok (readLiteral_eq_ok.2 ⟨hencodable, hliteral⟩)
    | exec name =>
      obtain ⟨middle, hbyte, hname⟩ := past_cons.1 hpast
      rw [bind_eq_of_ok (next_eq_ok.2 hbyte), Opcode.ofByte?_toByte]
      exact bind_eq_of_ok (readName_eq_ok.2 ⟨hencodable, hname⟩)

theorem read_eq_ok {instruction : Instruction} :
    read cursor = .ok instruction cursor' ↔
      instruction.Encodable ∧ cursor.Past instruction.encode cursor' := by
  constructor
  · intro h
    obtain ⟨head, middle, hhead, h⟩ := bind_eq_ok_iff.1 h
    obtain ⟨hencodable, hpast⟩ := readHead_eq_ok.1 hhead
    cases head with
    | push literal =>
      cases h
      exact ⟨hencodable, hpast⟩
    | exec name =>
      dsimp only at h
      by_cases hbranch : name = branchName
      · rw [if_pos hbranch] at h
        obtain ⟨target, last, htarget, h⟩ := bind_eq_ok_iff.1 h
        cases h
        subst hbranch
        exact ⟨trivial, past_append.2 ⟨middle, hpast, readTarget_eq_ok.1 htarget⟩⟩
      · rw [if_neg hbranch] at h
        by_cases hjump : name = jumpName
        · rw [if_pos hjump] at h
          obtain ⟨target, last, htarget, h⟩ := bind_eq_ok_iff.1 h
          cases h
          subst hjump
          exact ⟨trivial, past_append.2 ⟨middle, hpast, readTarget_eq_ok.1 htarget⟩⟩
        · rw [if_neg hjump] at h
          cases h
          exact ⟨⟨hencodable, hbranch, hjump⟩, hpast⟩
  · rintro ⟨hencodable, hpast⟩
    rw [encode_eq_head_append, past_append] at hpast
    obtain ⟨middle, hhead, hoperand⟩ := hpast
    unfold read
    refine (bind_eq_of_ok (readHead_eq_ok.2 ⟨hencodable.head, hhead⟩)).trans ?_
    cases instruction with
    | push literal =>
      rw [past_nil.1 hoperand]
      rfl
    | exec name =>
      rw [past_nil.1 hoperand]
      simp only [head, if_neg hencodable.2.1, if_neg hencodable.2.2]
      rfl
    | branch target => exact bind_eq_of_ok (readTarget_eq_ok.2 hoperand)
    | jump target => exact bind_eq_of_ok (readTarget_eq_ok.2 hoperand)

theorem remaining_le {instruction : Instruction} {fuel : Nat}
    (h : cursor.Past instruction.encode cursor') (hfuel : cursor.remaining ≤ fuel + 1) :
    cursor'.remaining ≤ fuel := by
  have hposition := h.position
  have hsize := h.size
  have hpos := instruction.size_pos
  rw [length_encode] at hposition
  unfold remaining at *
  omega

/-! ## Whole pieces of code -/

/-- What is left to read are the bytes of instructions that can be read back. -/
structure LeftToRead (cursor : Cursor UInt8) (instructions : List Instruction) : Prop where
  encodable : ∀ i ∈ instructions, i.Encodable
  rest : cursor.rest = encodeAll instructions

private theorem leftToRead_nil (h : cursor.rest = []) {instructions : List Instruction} :
    LeftToRead cursor instructions ↔ instructions = [] := by
  constructor
  · rintro ⟨_, hrest⟩
    exact encodeAll_eq_nil.1 (hrest.symm.trans h)
  · rintro rfl
    exact ⟨by simp, h⟩

theorem leftToRead_cons {instruction : Instruction} {rest : List Instruction} :
    LeftToRead cursor (instruction :: rest) ↔
      ∃ cursor', read cursor = .ok instruction cursor' ∧ LeftToRead cursor' rest := by
  constructor
  · rintro ⟨hencodable, hrest⟩
    rw [encodeAll_cons] at hrest
    obtain ⟨cursor', hpast, hrest'⟩ := exists_past hrest
    rw [List.forall_mem_cons] at hencodable
    exact ⟨cursor', read_eq_ok.2 ⟨hencodable.1, hpast⟩, hencodable.2, hrest'⟩
  · rintro ⟨cursor', hread, hencodable, hrest⟩
    obtain ⟨hinstruction, hpast⟩ := read_eq_ok.1 hread
    refine ⟨List.forall_mem_cons.2 ⟨hinstruction, hencodable⟩, ?_⟩
    rw [encodeAll_cons, ← hrest, hpast.rest]

private theorem readAll_eq_ok {fuel : Nat} {done listing : List (Nat × Instruction)}
    (hfuel : cursor.remaining ≤ fuel) :
    readAll fuel done cursor = .ok listing ↔
      ∃ instructions, LeftToRead cursor instructions ∧
        listing = done.reverse ++ numbered cursor.position instructions := by
  -- Every instruction takes a byte, so the fuel never runs out before the bytes do.
  induction fuel generalizing done cursor with
  | zero =>
    have hrest : cursor.rest = [] := by
      rw [← List.length_eq_zero_iff, length_rest]
      omega
    simp only [readAll, leftToRead_nil hrest, exists_eq_left, numbered, List.append_nil,
      Except.ok.injEq, eq_comm]
  | succ fuel ih =>
    unfold readAll
    by_cases hnext : cursor.hasNext = true
    · rw [if_pos hnext]
      have hnonempty : cursor.rest ≠ [] := by
        rw [Ne, rest_eq_nil_iff, hnext]
        exact nofun
      constructor
      · intro h
        cases hread : read cursor with
        | ok instruction cursor' =>
          rw [hread] at h
          have hpast := (read_eq_ok.1 hread).2
          obtain ⟨instructions, hleft, rfl⟩ := (ih (remaining_le hpast hfuel)).1 h
          refine ⟨instruction :: instructions, leftToRead_cons.2 ⟨cursor', hread, hleft⟩, ?_⟩
          simp [numbered, hpast.position]
        | error e cursor' =>
          rw [hread] at h
          cases h
      · rintro ⟨instructions, hleft, rfl⟩
        cases instructions with
        | nil => exact absurd hleft.rest hnonempty
        | cons instruction instructions =>
          obtain ⟨cursor', hread, hleft'⟩ := leftToRead_cons.1 hleft
          have hpast := (read_eq_ok.1 hread).2
          rw [hread]
          refine (ih (remaining_le hpast hfuel)).2 ⟨instructions, hleft', ?_⟩
          simp [numbered, hpast.position]
    · rw [if_neg hnext]
      have hrest := rest_eq_nil_iff.2 (eq_false_of_ne_true hnext)
      simp only [leftToRead_nil hrest, exists_eq_left, numbered, List.append_nil, Except.ok.injEq,
        eq_comm]

/-- Code can be decoded exactly if it is the code of instructions that can be read back. -/
theorem decode_eq_ok {code : Code} {listing : List (Nat × Instruction)} :
    decode code = .ok listing ↔
      ∃ instructions, (∀ i ∈ instructions, i.Encodable) ∧ code = encodeAll instructions ∧
        listing = numbered 0 instructions := by
  unfold decode
  rw [readAll_eq_ok (by simp [start, remaining])]
  constructor
  · rintro ⟨instructions, hleft, rfl⟩
    exact ⟨instructions, hleft.encodable, hleft.rest, rfl⟩
  · rintro ⟨instructions, hencodable, hcode, rfl⟩
    exact ⟨instructions, ⟨hencodable, hcode⟩, rfl⟩

/-! ## Moving ahead -/

theorem readTarget_forward : Forward readTarget := by
  refine .bind next_forward fun high => ?_
  refine .bind next_forward fun low => ?_
  exact .pure _

theorem readName_forward : Forward readName := by
  refine .bind here_forward fun position => ?_
  refine .bind (readUntil_forward terminator) fun bytes => ?_
  refine .ite ?_ (.throw trivial)
  split
  · exact .pure _
  · exact .throw trivial

theorem readLiteral_forward : Forward readLiteral := by
  refine .bind here_forward fun position => ?_
  refine .bind next_forward fun tag => ?_
  split
  · exact .throw trivial
  · exact .bind next_forward fun n => .pure _
  · refine .bind next_forward fun byte => ?_
    split
    · exact .pure _
    · exact .throw trivial
  · refine .bind next_forward fun byte => ?_
    split
    · exact .pure _
    · exact .pure _
    · exact .throw trivial
  · refine .bind (readUntil_forward terminator) fun bytes => ?_
    split
    · exact .pure _
    · exact .throw trivial

theorem readHead_forward : Forward readHead := by
  refine .bind here_forward fun position => ?_
  refine .bind next_forward fun byte => ?_
  split
  · exact .bind readLiteral_forward fun literal => .pure _
  · exact .bind readName_forward fun name => .pure _
  · exact .throw trivial

end Instruction

end Tabletop
