import Tabletop.Text.Utf8

/-!
# Output

What a session has printed. The place it is printed to may fail, and may go on after it has failed.
When and with which message is up to that place, so both are given with the output.
-/

namespace Tabletop

/-- So many more bytes are taken before a failure with the message. -/
structure Limit where
  room : Nat
  message : String

namespace Limit

/-- The limits behind one that has been reached. Where there are none, nothing is taken any more. -/
def beyond (limit : Limit) : List Limit → List Limit
  | [] => [{ limit with room := 0 }]
  | later => later

/-- What a place with these limits takes of some bytes. -/
def fitting (bytes : List UInt8) : List Limit → List UInt8
  | [] => bytes
  | limit :: _ => bytes.take limit.room

/-- The message of the failure to take all of the bytes, if they are not all taken. -/
def blocked? (bytes : List UInt8) : List Limit → Option String
  | [] => none
  | limit :: _ => if bytes.length ≤ limit.room then none else some limit.message

/-- The limits that are left after some bytes. -/
def left (bytes : List UInt8) : List Limit → List Limit
  | [] => []
  | limit :: later =>
    if bytes.length ≤ limit.room then { limit with room := limit.room - bytes.length } :: later
    else limit.beyond later

end Limit

/-- The bytes printed so far, newest first, and the limits that are still to come. Without any there
is room for everything. -/
@[ext]
structure Output where
  written : List UInt8
  limits : List Limit

namespace Output

/-- Nothing is printed yet. -/
def empty (limits : List Limit) : Output := ⟨[], limits⟩

/-- The bytes printed so far, in order. -/
def bytes (output : Output) : List UInt8 := output.written.reverse

/-- Print as many of the bytes as are taken. -/
def append (output : Output) (bytes : List UInt8) : Output where
  written := (Limit.fitting bytes output.limits).reverseAux output.written
  limits := Limit.left bytes output.limits

/-- The bytes printed since `earlier`, in order. -/
def since (output earlier : Output) : List UInt8 :=
  (output.written.take (output.written.length - earlier.written.length)).reverse

@[simp] theorem limits_append (output : Output) (bytes : List UInt8) :
    (output.append bytes).limits = Limit.left bytes output.limits := rfl

@[simp] theorem written_append (output : Output) (bytes : List UInt8) :
    (output.append bytes).written =
      (Limit.fitting bytes output.limits).reverse ++ output.written :=
  List.reverseAux_eq

@[simp] theorem since_self (output : Output) : output.since output = [] := by simp [since]

/-! ## Without limits -/

section Unlimited

variable {output : Output} (h : output.limits = [])

include h

theorem append_eq_of_unlimited (bytes : List UInt8) :
    output.append bytes = ⟨bytes.reverse ++ output.written, []⟩ := by
  simp [append, h, Limit.fitting, Limit.left, List.reverseAux_eq]

theorem append_nil_of_unlimited : output.append [] = output := by
  rw [append_eq_of_unlimited h]
  exact Output.ext rfl h.symm

theorem bytes_append_of_unlimited (bytes : List UInt8) :
    (output.append bytes).bytes = output.bytes ++ bytes := by
  simp [append_eq_of_unlimited h, Output.bytes]

theorem since_append_of_unlimited (bytes : List UInt8) :
    (output.append bytes).since output = bytes := by
  simp [append_eq_of_unlimited h, since]

end Unlimited

end Output

end Tabletop
