import Tabletop.Proofs.Decoding

/-!
# Reads, successful or not, one after another

A read that fails leaves the cursor wherever it got to. Even so a cursor only goes ahead: every read
does (`Access.read_forward`), so any number of them do (`Cursor.after_ahead`). Errors say where they
arose. Code that ends too early is reported at its end, everything else where the read began
(`Access.read_placed`). A read that succeeds has passed just the bytes that stand for what it found
(`Access.read_past`).
-/

namespace Tabletop

open Cursor Instruction

/-! ## What can be asked of a cursor -/

/-- A single operation on a cursor in code. -/
inductive Access where
  | next
  | advanceTo (offset : Nat)
  | literal
  | name
  | target

/-- What an access finds. -/
inductive Found where
  | byte (byte : UInt8)
  /-- Nothing, on the way to another position. -/
  | moved
  | literal (literal : Literal)
  | name (name : String)
  | target (target : UInt16)

/-- The bytes that stand for what was found. -/
def Found.bytes? : Found → Option Code
  | byte b => some [b]
  | moved => none
  | literal l => some l.encode
  | name n => some (Text.utf8 n ++ [terminator])
  | target t => some (encodeTarget t)

def Access.read : Access → Read UInt8 Found
  | next => Found.byte <$> Cursor.next
  | advanceTo offset => (fun _ => Found.moved) <$> Cursor.advanceTo offset
  | literal => Found.literal <$> readLiteral
  | name => Found.name <$> readName
  | target => Found.target <$> readTarget

/-- The cursor after some accesses, each of which may have failed. -/
def Cursor.after (cursor : Cursor UInt8) : List Access → Cursor UInt8
  | [] => cursor
  | access :: accesses => (endState (access.read cursor)).after accesses

/-! ## Going ahead -/

theorem Cursor.Forward.map {α β γ : Type} {read : Read α β} (h : Forward read) (f : β → γ) :
    Forward (f <$> read) := by
  rw [map_eq_pure_bind]
  exact .bind h fun _ => .pure _

private theorem Access.read_forward (access : Access) : Forward access.read := by
  cases access with
  | next => exact next_forward.map _
  | advanceTo offset => exact (advanceTo_forward offset).map _
  | literal => exact readLiteral_forward.map _
  | name => exact readName_forward.map _
  | target => exact readTarget_forward.map _

private theorem Cursor.after_ahead (cursor : Cursor UInt8) (accesses : List Access) :
    cursor.Ahead (cursor.after accesses) := by
  induction accesses generalizing cursor with
  | nil => exact refl_of Ahead cursor
  | cons access accesses ih => exact trans_of Ahead (access.read_forward.atEnd cursor) (ih _)

/-! ## Where errors arise -/

/-- The error is one of a read that began at position `start` of `length` items, and says so. Items
that end too early are an error at their end. -/
def DecodeError.Placed (start length : Nat) : DecodeError → Prop
  | exhausted position => position = length
  | unknownTag _ position => position = start
  | invalidPayload _ position => position = start
  | invalidWordName position => position = start
  | invalidJump position _ => position = start
  | unknownOpcode _ _ => False

namespace Cursor

variable {α β γ : Type} {start : Nat}

/-- The read takes itself for a part of one that began at `start`, and places its errors there. -/
def PlacesAt (start : Nat) (read : Read α β) : Prop :=
  ∀ cursor e cursor', read cursor = .error e cursor' → e.Placed start cursor.size

/-- The read places its errors where it began. -/
def Places (read : Read α β) : Prop :=
  ∀ cursor e cursor', read cursor = .error e cursor' → e.Placed cursor.position cursor.size

theorem PlacesAt.pure (b : β) : PlacesAt start (pure b : Read α β) := by
  intro cursor e cursor' h
  cases h

theorem PlacesAt.throw {e : DecodeError} (h : ∀ length, e.Placed start length) :
    PlacesAt start (throw e : Read α β) := by
  intro cursor _ _ hthrow
  cases hthrow
  exact h _

theorem PlacesAt.bind {read : Read α β} {f : β → Read α γ} (h : PlacesAt start read)
    (hforward : Forward read) (hf : ∀ b, PlacesAt start (f b)) : PlacesAt start (read >>= f) := by
  intro cursor e cursor' herror
  cases hread : read cursor with
  | ok b middle =>
    -- The second read starts further on, but in the same items and with the same `start`.
    rw [bind_eq_of_ok hread] at herror
    rw [← (hforward.ok hread).size]
    exact hf b middle e cursor' herror
  | error e' middle =>
    rw [bind_eq_of_error hread] at herror
    cases herror
    exact h cursor e _ hread

theorem PlacesAt.ite {c : Prop} [Decidable c] {x y : Read α β} (hx : PlacesAt start x)
    (hy : PlacesAt start y) : PlacesAt start (if c then x else y) := by
  split
  · exact hx
  · exact hy

private theorem places_of_forall {read : Read α β} (h : ∀ start, PlacesAt start read) :
    Places read :=
  fun cursor => h cursor.position cursor

/-- A read may ask first where it begins. -/
theorem places_here {f : Nat → Read α β} (h : ∀ start, PlacesAt start (f start)) :
    Places (here >>= f) :=
  fun cursor => h cursor.position cursor

theorem Places.map {read : Read α β} (h : Places read) (f : β → γ) : Places (f <$> read) :=
  fun cursor e cursor' herror => h cursor e cursor' (map_eq_error.1 herror)

private theorem next_eq_error {cursor cursor' : Cursor α} {e : DecodeError} :
    next cursor = .error e cursor' ↔
      cursor.hasNext = false ∧ e = .exhausted cursor.size ∧ cursor' = cursor := by
  cases hrest : cursor.rest with
  | nil =>
    have hend := rest_eq_nil_iff.1 hrest
    have hposition : cursor.position = cursor.size := by
      have hle := cursor.position_le
      simp only [hasNext, decide_eq_false_iff_not] at hend
      omega
    rw [next_of_nil hrest, hposition]
    constructor
    · intro h
      cases h
      exact ⟨hend, rfl, rfl⟩
    · rintro ⟨_, rfl, rfl⟩
      rfl
  | cons item rest =>
    have hmore : cursor.hasNext ≠ false := by
      rw [Ne, ← rest_eq_nil_iff, hrest]
      exact List.cons_ne_nil _ _
    obtain ⟨hle, hnext⟩ := next_of_cons hrest
    rw [hnext]
    constructor
    · intro h
      cases h
    · intro h
      exact absurd h.1 hmore

private theorem advanceTo_eq_error {cursor cursor' : Cursor α} {target : Nat} {e : DecodeError} :
    advanceTo target cursor = .error e cursor' ↔
      ¬ (cursor.position ≤ target ∧ target ≤ cursor.size) ∧
        e = .invalidJump cursor.position target ∧ cursor' = cursor := by
  unfold advanceTo
  by_cases h : cursor.position ≤ target ∧ target ≤ cursor.size
  · rw [dif_pos h]
    constructor
    · nofun
    · intro hneg
      exact absurd h hneg.1
  · rw [dif_neg h]
    constructor
    · intro heq
      cases heq
      exact ⟨h, rfl, rfl⟩
    · rintro ⟨_, rfl, rfl⟩
      rfl

private theorem next_placesAt : PlacesAt start (next : Read α α) := by
  intro cursor e cursor' h
  obtain ⟨_, rfl, _⟩ := next_eq_error.1 h
  exact rfl

private theorem readUntil_placesAt [BEq α] (stop : α) : PlacesAt start (readUntil stop) := by
  intro cursor e cursor' h
  unfold readUntil at h
  dsimp only at h
  split at h
  · cases h
  · cases h
    exact rfl

private theorem advanceTo_places (target : Nat) : Places (advanceTo target : Read α Unit) := by
  intro cursor e cursor' h
  obtain ⟨_, rfl, _⟩ := advanceTo_eq_error.1 h
  exact rfl

end Cursor

namespace Instruction

private theorem readTarget_places : Places readTarget := by
  refine places_of_forall fun start => ?_
  refine .bind next_placesAt next_forward fun high => ?_
  exact .bind next_placesAt next_forward fun low => .pure _

private theorem readName_places : Places readName := by
  refine places_here fun start => ?_
  refine .bind (readUntil_placesAt terminator) (readUntil_forward terminator) fun bytes => ?_
  refine .ite ?_ (.throw fun _ => rfl)
  split
  · exact .pure _
  · exact .throw fun _ => rfl

private theorem readLiteral_places : Places readLiteral := by
  refine places_here fun start => ?_
  refine .bind next_placesAt next_forward fun tag => ?_
  split
  · exact .throw fun _ => rfl
  · exact .bind next_placesAt next_forward fun n => .pure _
  · refine .bind next_placesAt next_forward fun byte => ?_
    split
    · exact .pure _
    · exact .throw fun _ => rfl
  · refine .bind next_placesAt next_forward fun byte => ?_
    split
    · exact .pure _
    · exact .pure _
    · exact .throw fun _ => rfl
  · refine .bind (readUntil_placesAt terminator) (readUntil_forward terminator) fun bytes => ?_
    split
    · exact .pure _
    · exact .throw fun _ => rfl

end Instruction

namespace Access

private theorem read_placed (access : Access) : Places access.read := by
  cases access with
  | next => exact (places_of_forall fun _ => next_placesAt).map _
  | advanceTo offset => exact (advanceTo_places offset).map _
  | literal => exact readLiteral_places.map _
  | name => exact readName_places.map _
  | target => exact readTarget_places.map _

/-! ## What a read has passed -/

private theorem read_past {access : Access} {cursor cursor' : Cursor UInt8} {found : Found}
    {bytes : Code}
    (h : access.read cursor = .ok found cursor') (hbytes : found.bytes? = some bytes) :
    cursor.Past bytes cursor' := by
  cases access with
  | next =>
    obtain ⟨b, hread, rfl⟩ := map_eq_ok.1 h
    cases hbytes
    exact next_eq_ok.1 hread
  | advanceTo offset =>
    obtain ⟨_, _, rfl⟩ := map_eq_ok.1 h
    cases hbytes
  | literal =>
    obtain ⟨l, hread, rfl⟩ := map_eq_ok.1 h
    cases hbytes
    exact (readLiteral_eq_ok.1 hread).2
  | name =>
    obtain ⟨n, hread, rfl⟩ := map_eq_ok.1 h
    cases hbytes
    exact (readName_eq_ok.1 hread).2
  | target =>
    obtain ⟨t, hread, rfl⟩ := map_eq_ok.1 h
    cases hbytes
    exact readTarget_eq_ok.1 hread

/-- A single move, to the next item or to a target, is made as a whole or not at all. -/
theorem eq_of_read_error {access : Access} {cursor cursor' : Cursor UInt8} {e : DecodeError}
    (h : access.read cursor = .error e cursor')
    (haccess : access = .next ∨ ∃ offset, access = .advanceTo offset) : cursor' = cursor := by
  rcases haccess with rfl | ⟨offset, rfl⟩
  · exact (next_eq_error.1 (map_eq_error.1 h)).2.2
  · exact (advanceTo_eq_error.1 (map_eq_error.1 h)).2.2

end Access

/-- The items between the two cursors are those that were passed. -/
theorem Cursor.Past.between {α : Type} {cursor cursor' : Cursor α} {passed : List α}
    (h : cursor.Past passed cursor') :
    (cursor.items.take cursor'.position).drop cursor.position = passed := by
  rw [List.drop_take, ← cursor.rest_eq, h.rest, h.position, Nat.add_sub_cancel_left,
    List.take_left]

/-- Whatever was read before and whether it failed or not, further reads leave the code as it is, go
forward and stay within it. A read that fails says where. If it was a single move, the cursor has
not moved. A read that succeeds has passed just the bytes of what it found. -/
theorem reads_forward_bounded (code : Code) (before : List Access) :
    let cursor := (Cursor.start code).after before
    (∀ further, (cursor.after further).items = code ∧
      cursor.position ≤ (cursor.after further).position ∧
      (cursor.after further).position ≤ code.length) ∧
    (∀ (access : Access) error cursor', access.read cursor = .error error cursor' →
      ((access = .next ∨ ∃ offset, access = .advanceTo offset) →
        cursor'.position = cursor.position) ∧
      error.Placed cursor.position code.length) ∧
    (∀ (access : Access) found cursor' bytes, access.read cursor = .ok found cursor' →
      found.bytes? = some bytes →
      (code.take cursor'.position).drop cursor.position = bytes) := by
  intro cursor
  have hitems : cursor.items = code := ((Cursor.start code).after_ahead before).1
  have hsize : cursor.size = code.length := cursor.size_eq.trans (congrArg List.length hitems)
  refine ⟨?_, ?_, ?_⟩
  · intro further
    obtain ⟨hitems', hle, hend⟩ := cursor.after_ahead further
    rw [hitems'.trans hitems] at hend
    exact ⟨hitems'.trans hitems, hle, hend⟩
  · intro access error cursor' h
    refine ⟨fun haccess => ?_, hsize ▸ access.read_placed cursor error cursor' h⟩
    rw [Access.eq_of_read_error h haccess]
  · intro access found cursor' bytes h hbytes
    exact hitems ▸ (Access.read_past h hbytes).between

/-- A flag that is none has been read in part. The two bytes left are no direction, but a target. -/
theorem reads_forward_bounded_partial :
    let code : Code := [2, 7, 1, 44]
    let cursor := (Cursor.start code).after [.literal]
    (∃ cursor', (Access.advanceTo 1).read cursor = .error (.invalidJump 2 1) cursor' ∧
        cursor'.position = cursor.position) ∧
      (∃ cursor', Access.literal.read cursor = .error (.invalidPayload .direction 2) cursor' ∧
        (DecodeError.invalidPayload .direction 2).Placed cursor.position code.length) ∧
      ∃ cursor', Access.target.read cursor = .ok (.target 300) cursor' ∧
        (code.take cursor'.position).drop cursor.position = [1, 44] := by
  intro code cursor
  obtain ⟨-, hfailed, hread⟩ := reads_forward_bounded code [.literal]
  obtain ⟨back, hback⟩ : ∃ cursor', (Access.advanceTo 1).read cursor =
      .error (.invalidJump 2 1) cursor' := ⟨_, rfl⟩
  obtain ⟨partly, hpartly⟩ : ∃ cursor', Access.literal.read cursor =
      .error (.invalidPayload .direction 2) cursor' := ⟨_, rfl⟩
  obtain ⟨past, hpast⟩ : ∃ cursor', Access.target.read cursor = .ok (.target 300) cursor' :=
    ⟨_, rfl⟩
  refine ⟨⟨back, hback, ?_⟩, ⟨partly, hpartly, ?_⟩, past, hpast, ?_⟩
  · exact (hfailed _ _ back hback).1 (.inr ⟨1, rfl⟩)
  · exact (hfailed _ _ partly hpartly).2
  · exact hread _ _ past _ hpast rfl

end Tabletop
