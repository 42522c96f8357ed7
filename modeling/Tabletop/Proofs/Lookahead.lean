import Tabletop.Proofs.Places
import Tabletop.Reader

/-!
# Looking ahead

A reader keeps a character apart from the text once it has been looked at. What matters is only what
is still to be read, the kept character and the text behind it (`Reader.rest`): looking leaves it as
it is, reading takes its first character, and both answer that character. So a
reader that has read `k` characters of a text stands in front of the others, at the place behind the
`k` read (`Reader.HasRead`), whatever it looked at in between (`peeking_invisible`).
-/

namespace Tabletop

namespace Reader

/-! ## One request -/

private theorem location_next (reader : Reader) :
    (reader.serve .next).2.location = reader.location.afterAll reader.rest.head?.toList := by
  obtain ⟨pending, unread, location⟩ := reader
  cases pending <;> cases unread <;> rfl

/-! ## Any number of requests -/

/-- The reader after some requests. -/
def after (reader : Reader) : List Request → Reader
  | [] => reader
  | request :: requests => (reader.serve request).2.after requests

/-- What the requests to read are answered, in order. -/
def readings (reader : Reader) : List Request → List (Option Char)
  | [] => []
  | .peek :: requests => (reader.serve .peek).2.readings requests
  | .next :: requests => (reader.serve .next).1 :: (reader.serve .next).2.readings requests

/-- The reader was asked `k` times to read a character of the text named `path`. Beyond the end it
has read the whole text. -/
structure HasRead (path : String) (text : List Char) (k : Nat) (reader : Reader) : Prop where
  rest : reader.rest = text.drop k
  location : reader.location = .behind path (text.take k)

section HasRead

variable {path : String} {text : List Char} {k : Nat} {reader : Reader}

private theorem start_hasRead (path source : String) :
    HasRead path source.toList 0 (Reader.start path source) :=
  ⟨rfl, rfl⟩

theorem HasRead.answer (h : HasRead path text k reader) (request : Request) :
    (reader.serve request).1 = text[k]? := by
  rw [serve_answer, h.rest, List.head?_drop]

theorem HasRead.peek (h : HasRead path text k reader) :
    HasRead path text k (reader.serve .peek).2 where
  rest := (rest_peek reader).trans h.rest
  location := (location_peek reader).trans h.location

theorem HasRead.next (h : HasRead path text k reader) :
    HasRead path text (k + 1) (reader.serve .next).2 where
  rest := by rw [rest_next, h.rest, List.tail_drop]
  location := by
    rw [location_next, h.rest, List.head?_drop, h.location, Location.afterAll_behind,
      ← List.take_add_one]

theorem HasRead.after (h : HasRead path text k reader) (requests : List Request) :
    HasRead path text (k + requests.count .next) (reader.after requests) := by
  -- A look keeps the hypothesis for the same `k`, so only requests to read are counted.
  induction requests generalizing k reader with
  | nil => exact h
  | cons request requests ih =>
    cases request with
    | peek =>
      rw [List.count_cons_of_ne (by decide)]
      exact ih h.peek
    | next =>
      rw [List.count_cons_self, ← Nat.add_assoc, Nat.add_right_comm]
      exact ih h.next

private theorem HasRead.readings (h : HasRead path text k reader) (requests : List Request) :
    reader.readings requests =
      (List.range' k (requests.count .next)).map fun i => text[i]? := by
  induction requests generalizing k reader with
  | nil => rfl
  | cons request requests ih =>
    cases request with
    | peek =>
      rw [List.count_cons_of_ne (by decide)]
      exact ih h.peek
    | next =>
      rw [List.count_cons_self, List.range'_succ, List.map_cons, ← h.answer .next, ← ih h.next]
      rfl

end HasRead

/-- Of the first `n` places of a text, those within the text have a character. -/
theorem countP_range_getElem? (text : List Char) (n : Nat) :
    ((List.range n).map fun i => text[i]?).countP Option.isSome = min n text.length := by
  induction n with
  | zero => simp
  | succ n ih =>
    have hlast : ([n].map fun i => text[i]?).countP Option.isSome =
        if n < text.length then 1 else 0 := by
      simp [List.countP_cons]
    rw [List.range_succ, List.map_append, List.countP_append, ih, hlast]
    split <;> omega

/-- Looking at a character does not show. Whatever is asked of a reader, its readings are the
characters of the text in order and none from the end on. What it shows to one who looks is the next
reading, however often one looks. And it stands behind as many characters as were read. -/
theorem peeking_invisible (path source : String) (requests : List Request) :
    (Reader.start path source).readings requests =
        (List.range (requests.count .next)).map (fun i => source.toList[i]?) ∧
      (∀ looks : Nat,
        (((Reader.start path source).after requests).serve .peek).1 =
          (((Reader.start path source).after
            (requests ++ .replicate (looks + 1) .peek)).serve .next).1) ∧
      ((Reader.start path source).after requests).location =
        .behind path (source.toList.take
          (((Reader.start path source).readings requests).countP Option.isSome)) := by
  have hstart := start_hasRead path source
  have hreadings := hstart.readings requests
  rw [← List.range_eq_range'] at hreadings
  refine ⟨hreadings, ?_, ?_⟩
  · intro looks
    have hlooks : (List.replicate (looks + 1) Request.peek).count .next = 0 :=
      List.count_eq_zero_of_not_mem (by simp)
    rw [(hstart.after requests).answer, (hstart.after _).answer, List.count_append, hlooks]
    rfl
  · -- Asked beyond the end, the reader has read fewer characters than it was asked for.
    rw [hreadings, countP_range_getElem?, (hstart.after requests).location, Nat.zero_add,
      ← List.take_eq_take_min]

end Reader

end Tabletop
