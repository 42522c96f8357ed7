import Tabletop.Proofs.WellFormed

/-!
# Instructions and their bytes determine one another

`Decodes` describes how decoding goes through the code, instruction by instruction, as far as it has
come. Where it comes to the end of the code, or to an instruction that cannot be read, that is its
outcome (`Decodes.decode_eq_ok`, `Decodes.decode_eq_error`). Between instructions that can be read
back and code that can be decoded, writing and decoding are inverse to each other
(`encoding_bijective`).
-/

namespace Tabletop.Instruction

open Cursor

/-- Reading one instruction after another takes the first cursor to the second and gives the
instructions with their offsets. -/
inductive Decodes : Cursor UInt8 → List (Nat × Instruction) → Cursor UInt8 → Prop
  | nil {cursor : Cursor UInt8} : Decodes cursor [] cursor
  | cons {cursor middle last : Cursor UInt8} {instruction : Instruction}
      {listing : List (Nat × Instruction)} : read cursor = .ok instruction middle →
    Decodes middle listing last → Decodes cursor ((cursor.position, instruction) :: listing) last

section Decodes

variable {cursor last stuck : Cursor UInt8} {listing : List (Nat × Instruction)} {code : Code}
  {e : DecodeError}

private theorem hasNext_of_read {instruction : Instruction}
    (h : read cursor = .ok instruction last) :
    cursor.hasNext = true :=
  (read_eq_ok.1 h).2.hasNext instruction.encode_ne_nil

theorem Decodes.items (h : Decodes cursor listing last) : last.items = cursor.items := by
  induction h with
  | nil => rfl
  | cons hread _ ih => exact ih.trans (read_eq_ok.1 hread).2.items

/-- The loop has steps enough for what is left behind the instructions that it has gone through. -/
theorem Decodes.readAll_eq (h : Decodes cursor listing last) {fuel : Nat}
    (hfuel : cursor.remaining ≤ fuel) (done : List (Nat × Instruction)) :
    ∃ fuel', last.remaining ≤ fuel' ∧
      readAll fuel done cursor = readAll fuel' (listing.reverse ++ done) last := by
  induction h generalizing fuel done with
  | nil => exact ⟨fuel, hfuel, rfl⟩
  | @cons cursor middle last instruction listing hread _ ih =>
    have hmore := hasNext_of_read hread
    have hpos := hasNext_iff.1 hmore
    obtain ⟨fuel, rfl⟩ := Nat.exists_eq_add_of_lt (Nat.lt_of_lt_of_le hpos hfuel)
    rw [Nat.zero_add] at hfuel ⊢
    have hleft := remaining_le (read_eq_ok.1 hread).2 hfuel
    obtain ⟨fuel', hfuel', hrest⟩ := ih hleft ((cursor.position, instruction) :: done)
    refine ⟨fuel', hfuel', ?_⟩
    rw [readAll, if_pos hmore, hread]
    simpa using hrest

private theorem remaining_start (code : Code) : (Cursor.start code).remaining = code.length := rfl

/-- Code that has been gone through to its end is decoded. -/
theorem Decodes.decode_eq_ok (h : Decodes (.start code) listing last)
    (hend : last.hasNext = false) : decode code = .ok listing := by
  obtain ⟨fuel, _, hrest⟩ := h.readAll_eq (Nat.le_of_eq (remaining_start code)) []
  rw [decode, hrest]
  cases fuel with
  | zero => simp [readAll]
  | succ fuel => simp [readAll, hend]

/-- Code with an instruction that cannot be read fails to decode as that instruction does. -/
theorem Decodes.decode_eq_error (h : Decodes (.start code) listing last)
    (hmore : last.hasNext = true) (hread : read last = .error e stuck) :
    decode code = .error e := by
  obtain ⟨fuel, hfuel, hrest⟩ := h.readAll_eq (Nat.le_of_eq (remaining_start code)) []
  have hpos := hasNext_iff.1 hmore
  obtain ⟨fuel, rfl⟩ := Nat.exists_eq_add_of_lt (Nat.lt_of_lt_of_le hpos hfuel)
  rw [decode, hrest, readAll, if_pos hmore, hread]

/-- Bytes of instructions that can be read back are gone through to the end. -/
theorem LeftToRead.decodes {instructions : List Instruction} (h : LeftToRead cursor instructions) :
    ∃ last, Decodes cursor (numbered cursor.position instructions) last ∧
      last.hasNext = false := by
  induction instructions generalizing cursor with
  | nil => exact ⟨cursor, .nil, rest_eq_nil_iff.1 h.rest⟩
  | cons instruction instructions ih =>
    obtain ⟨middle, hread, hleft⟩ := leftToRead_cons.1 h
    obtain ⟨last, hdecodes, hend⟩ := ih hleft
    have hposition := (read_eq_ok.1 hread).2.position
    rw [length_encode] at hposition
    rw [hposition] at hdecodes
    exact ⟨last, .cons hread hdecodes, hend⟩

private theorem position_of_end (hend : last.hasNext = false) :
    last.position = last.items.length := by
  have hle := last.position_le_length
  have hsize := last.size_eq
  simp only [hasNext, decide_eq_false_iff_not] at hend
  omega

end Decodes

theorem map_snd_numbered (offset : Nat) (instructions : List Instruction) :
    (numbered offset instructions).map Prod.snd = instructions := by
  induction instructions generalizing offset with
  | nil => rfl
  | cons instruction rest ih => rw [numbered, List.map_cons, ih]

/-- The code of instructions that can be read back decodes to these instructions, and decoding goes
through all of its bytes. Code that can be decoded is the code of the instructions that it decodes
to, and these can be read back. Compiled code is the code of such instructions. -/
theorem encoding_bijective :
    (∀ instructions : List Instruction, (∀ i ∈ instructions, i.Encodable) →
      ∃ listing last, decode (encodeAll instructions) = .ok listing ∧
        listing.map Prod.snd = instructions ∧
        Decodes (.start (encodeAll instructions)) listing last ∧
        last.position = (encodeAll instructions).length) ∧
    (∀ code listing, decode code = .ok listing →
      (∀ entry ∈ listing, entry.2.Encodable) ∧ encodeAll (listing.map Prod.snd) = code) ∧
    (∀ tokens code, compile tokens = .ok code →
      ∃ instructions, (∀ i ∈ instructions, i.Encodable) ∧ code = encodeAll instructions) := by
  refine ⟨?_, ?_, ?_⟩
  · intro instructions hencodable
    have hleft : LeftToRead (.start (encodeAll instructions)) instructions := ⟨hencodable, rfl⟩
    obtain ⟨last, hdecodes, hend⟩ := hleft.decodes
    refine ⟨_, last, hdecodes.decode_eq_ok hend, map_snd_numbered _ _, hdecodes, ?_⟩
    rw [position_of_end hend, hdecodes.items]
    rfl
  · intro code listing hdecode
    obtain ⟨instructions, hencodable, rfl, rfl⟩ := Instruction.decode_eq_ok.1 hdecode
    rw [map_snd_numbered]
    refine ⟨?_, rfl⟩
    intro entry hentry
    apply hencodable
    rw [← map_snd_numbered 0 instructions]
    exact List.mem_map_of_mem hentry
  · intro tokens code hcompile
    obtain ⟨instructions, hencodable, hcode, _⟩ := wellFormed_iff.1 (wellFormed_of_compile hcompile)
    exact ⟨instructions, hencodable, hcode⟩

/-- Instructions with a text beyond ASCII and with targets that lead nowhere, and the code of a
conditional. -/
theorem encoding_bijective_conditional :
    let instructions := [push (.string "é"), branch 258, exec "DUP", jump 0]
    let tokens : List Token := [.ofBool true .unspecified, .ofWord "IF" .unspecified,
      .ofWord "DUP" .unspecified, .ofWord "THEN" .unspecified]
    (∃ listing, decode (encodeAll instructions) = .ok listing ∧
      listing.map Prod.snd = instructions ∧
      encodeAll (listing.map Prod.snd) = encodeAll instructions) ∧
    ∃ code instructions, compile tokens = .ok code ∧ (∀ i ∈ instructions, i.Encodable) ∧
      code = encodeAll instructions := by
  intro instructions tokens
  have hencodable : ∀ i ∈ instructions, i.Encodable := by
    simp [instructions, Encodable, Literal.Encodable, IsName, branchName, jumpName]
  obtain ⟨listing, _, hdecode, hsame, _⟩ := encoding_bijective.1 instructions hencodable
  refine ⟨⟨listing, hdecode, hsame, (encoding_bijective.2.1 _ listing hdecode).2⟩, ?_⟩
  obtain ⟨code, hcompile⟩ : ∃ code, compile tokens = .ok code :=
    ⟨[0, 2, 1, 1, 73, 70, 0, 0, 14, 1, 68, 85, 80, 0], rfl⟩
  obtain ⟨written, hwritten, hcode⟩ := encoding_bijective.2.2 tokens code hcompile
  exact ⟨code, written, hcompile, hwritten, hcode⟩

end Tabletop.Instruction
