import Tabletop.Location

/-!
# Reading a text one character at a time

A reader goes through a text and knows the place of the next character. To look at that character it
takes it out of the text and keeps it until it is read.
-/

namespace Tabletop

/-- A reader in the middle of a text. -/
structure Reader where
  /-- A character that was looked at but not yet read. -/
  pending : Option Char
  /-- The text behind that character. -/
  unread : List Char
  /-- The place of the next character. -/
  location : Location

namespace Reader

/-- In front of the text named `path`. -/
def start (path source : String) : Reader := ⟨none, source.toList, .start path⟩

/-- Take the next character out of the text and keep it, unless one is kept already. -/
def fetch (reader : Reader) : Reader :=
  match reader.pending with
  | some _ => reader
  | none => { reader with pending := reader.unread.head?, unread := reader.unread.tail }

/-- The next character, which stays unread. -/
def peek (reader : Reader) : Option Char := reader.fetch.pending

/-- Give out the next character: the one that was looked at, or else the first of the text. -/
def take (reader : Reader) : Option Char × Reader :=
  match reader.pending with
  | some c => (some c, { reader with pending := none })
  | none => (reader.unread.head?, { reader with unread := reader.unread.tail })

/-- Read the next character. At the end there is none and the reader stays where it is. -/
def next (reader : Reader) : Option Char × Reader :=
  match reader.take with
  | (some c, taken) => (some c, { taken with location := taken.location.after c })
  | (none, taken) => (none, taken)

/-- What can be asked of a reader. -/
inductive Request where
  | peek
  | next
deriving DecidableEq, Repr

/-- The next character, if there is one, and the reader after the request. -/
def serve (reader : Reader) : Request → Option Char × Reader
  | .peek => (reader.peek, reader.fetch)
  | .next => reader.next

/-! ## What is left -/

/-- What is still to be read. -/
def rest (reader : Reader) : List Char := reader.pending.toList ++ reader.unread

/-- Every request is answered by the next character. -/
theorem serve_answer (reader : Reader) (request : Request) :
    (reader.serve request).1 = reader.rest.head? := by
  obtain ⟨pending, unread, location⟩ := reader
  cases request <;> cases pending <;> cases unread <;> rfl

theorem rest_peek (reader : Reader) : (reader.serve .peek).2.rest = reader.rest := by
  obtain ⟨pending, unread, location⟩ := reader
  cases pending <;> cases unread <;> rfl

theorem location_peek (reader : Reader) : (reader.serve .peek).2.location = reader.location := by
  obtain ⟨pending, unread, location⟩ := reader
  cases pending <;> rfl

theorem rest_next (reader : Reader) : (reader.serve .next).2.rest = reader.rest.tail := by
  obtain ⟨pending, unread, location⟩ := reader
  cases pending <;> cases unread <;> rfl

section Served

variable {reader peeked after : Reader} {answer : Option Char} {c : Char}

/-- Where there is no answer, nothing is left. -/
theorem rest_of_none {request : Request} (h : reader.serve request = (none, after)) :
    reader.rest = [] := by
  have hanswer := serve_answer reader request
  rw [h] at hanswer
  exact List.head?_eq_none_iff.1 hanswer.symm

/-- A character that is read is no longer left. -/
theorem rest_of_next (h : reader.serve .next = (some c, after)) :
    reader.rest = c :: after.rest := by
  have hanswer := serve_answer reader .next
  have hrest := rest_next reader
  rw [h] at hanswer hrest
  obtain ⟨chars, hchars⟩ := List.head?_eq_some_iff.1 hanswer.symm
  rw [hrest, hchars, List.tail_cons]

theorem location_of_next (h : reader.serve .next = (some c, after)) :
    after.location = reader.location.after c := by
  obtain ⟨pending, unread, location⟩ := reader
  cases pending <;> cases unread <;> cases h <;> rfl

/-- A character that is looked at is still left. -/
theorem rest_peeked (h : reader.serve .peek = (answer, peeked)) : peeked.rest = reader.rest := by
  rw [← rest_peek reader, h]

theorem location_peeked (h : reader.serve .peek = (answer, peeked)) :
    peeked.location = reader.location := by
  rw [← location_peek reader, h]

theorem peek_of_peek (h : reader.serve .peek = (answer, peeked)) :
    peeked.serve .peek = (answer, peeked) := by
  obtain ⟨pending, unread, location⟩ := reader
  cases pending <;> cases unread <;> cases h <;> rfl

/-- A character that is looked at is the one that is read next. -/
theorem next_of_peek (h : reader.serve .peek = (some c, peeked)) :
    peeked.serve .next = (some c, (peeked.serve .next).2) := by
  have hanswer := serve_answer peeked .next
  rw [rest_peeked h, ← serve_answer reader .peek, h] at hanswer
  exact Prod.ext hanswer rfl

theorem rest_of_peek (h : reader.serve .peek = (some c, peeked)) :
    reader.rest = c :: (peeked.serve .next).2.rest := by
  rw [← rest_peeked h, rest_of_next (next_of_peek h)]

theorem location_of_peek (h : reader.serve .peek = (some c, peeked)) :
    (peeked.serve .next).2.location = reader.location.after c := by
  rw [location_of_next (next_of_peek h), location_peeked h]

theorem length_next (h : reader.serve .next = (some c, after)) :
    after.rest.length < reader.rest.length := by
  rw [rest_of_next h]
  exact Nat.lt_succ_self _

theorem length_next_of_peek (h : reader.serve .peek = (some c, peeked)) :
    (peeked.serve .next).2.rest.length < reader.rest.length := by
  rw [rest_of_peek h]
  exact Nat.lt_succ_self _

end Served

end Reader

end Tabletop
