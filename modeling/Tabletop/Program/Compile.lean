import Tabletop.Program
import Tabletop.Token

/-!
# Compiling

Tokens are read into a program from the first to the last. `IF` opens a conditional, `ELSE` ends its
first body and `THEN` closes it; every other token is an item. The offset that each token has in the
code is followed along, so that a target beyond the reach of two bytes is found at the token that
fixes it.
-/

namespace Tabletop

/-- Why tokens do not make a program. -/
inductive CompileError where
  /-- The token has no payload of its kind. -/
  | payloadMismatch (location : Location) (kind : Token.Kind) (lexeme : String)
  | unmatchedElse (location : Location)
  | unmatchedThen (location : Location)
  | duplicateElse (location : Location)
  /-- The `IF` at `location` is never closed. -/
  | unterminatedIf (location : Location)
  | invalidWordName (location : Location) (name : String)
  | invalidStringLiteral (location : Location)
  /-- The word is written by the compiler only. -/
  | reservedWord (location : Location) (name : String)
  | literalOutOfRange (location : Location) (n : UInt64)
  /-- A target lies beyond `farthestTarget`. -/
  | programTooLarge (target : Nat)
deriving DecidableEq, Repr

def CompileError.message : CompileError → String
  | payloadMismatch location kind lexeme =>
    location.text ++ ": token '" ++ lexeme ++ "' does not hold a " ++ kind.name ++ " value"
  | unmatchedElse location => location.text ++ ": ELSE without a matching IF"
  | unmatchedThen location => location.text ++ ": THEN without a matching IF"
  | duplicateElse location => location.text ++ ": IF already has an ELSE"
  | unterminatedIf location => location.text ++ ": IF without a matching THEN"
  | invalidWordName location name =>
    location.text ++ ": word name " ++ Text.quoted name ++
      " must be non-empty ASCII without NUL characters"
  | invalidStringLiteral location =>
    location.text ++ ": string literal contains a NUL character"
  | reservedWord location name =>
    location.text ++ ": " ++ name ++ " is generated by the compiler and can't be used in source"
  | literalOutOfRange location n =>
    location.text ++ ": literal " ++ Text.showNat n.toNat ++ " does not fit in a byte"
  | programTooLarge target =>
    "jump destination " ++ Text.showNat target ++ " is past the largest addressable offset " ++
      Text.showNat farthestTarget

/-- The target at an offset, if two bytes reach it. -/
def targetAt (offset : Nat) : Except CompileError UInt16 :=
  if offset ≤ farthestTarget then .ok (UInt16.ofNat offset) else .error (.programTooLarge offset)

/-- Can the name be written into code? -/
def isEncodableName (name : String) : Bool :=
  !name.isEmpty && name.toList.all fun c => c.toNat < 128 && c != '\x00'

/-! ## Tokens by their part in a program -/

/-- The part that a token plays: it is an instruction of its own, or it bounds a conditional. -/
inductive Part where
  | leaf (leaf : Leaf)
  | openIf
  | orElse
  | closeIf

/-- The part of a word. -/
def Part.ofWord (location : Location) (name : String) : Except CompileError Part :=
  if name = branchName then .ok .openIf
  else if name = "ELSE" then .ok .orElse
  else if name = "THEN" then .ok .closeIf
  else if name = jumpName then .error (.reservedWord location name)
  else if isEncodableName name then .ok (.leaf (.word name))
  else .error (.invalidWordName location name)

/-- The part of a token. -/
def Part.ofToken (token : Token) : Except CompileError Part :=
  match token.kind, token.payload with
  | .number, .number n =>
    if n ≤ 255 then .ok (.leaf (.literal (.int n.toUInt8)))
    else .error (.literalOutOfRange token.location n)
  | .direction, .direction d => .ok (.leaf (.literal (.direction d)))
  | .bool, .bool b => .ok (.leaf (.literal (.bool b)))
  | .string, .text s =>
    if s.toList.contains '\x00' then .error (.invalidStringLiteral token.location)
    else .ok (.leaf (.literal (.string s)))
  | .word, .text name => Part.ofWord token.location name
  | kind, _ => .error (.payloadMismatch token.location kind token.lexeme)

/-! ## From tokens to a program -/

/-- A conditional that is not closed yet: where it was opened, the items in front of it (newest
first), and its first body once an `ELSE` has ended it. -/
structure Frame where
  location : Location
  before : List Item
  yes : Option (List Item)

/-- A program in the making: the open conditionals (innermost first), the items of the innermost
body (newest first), and the offset of what comes next. -/
structure Draft where
  frames : List Frame
  items : List Item
  offset : Nat

namespace Draft

def empty : Draft := ⟨[], [], 0⟩

/-- Take one token. -/
def step (draft : Draft) (token : Token) : Except CompileError Draft := do
  match ← Part.ofToken token with
  | .leaf leaf =>
    return ⟨draft.frames, .leaf leaf :: draft.items, draft.offset + leaf.instruction.size⟩
  | .openIf =>
    return ⟨⟨token.location, draft.items, none⟩ :: draft.frames, [], draft.offset + branchSize⟩
  | .orElse =>
    match draft.frames with
    | [] => throw (.unmatchedElse token.location)
    | frame :: frames =>
      if frame.yes.isSome then throw (.duplicateElse token.location)
      let middle := draft.offset + jumpSize
      let _ ← targetAt middle
      return ⟨{ frame with yes := some draft.items.reverse } :: frames, [], middle⟩
  | .closeIf =>
    match draft.frames with
    | [] => throw (.unmatchedThen token.location)
    | frame :: frames =>
      let _ ← targetAt draft.offset
      let body := draft.items.reverse
      let item := match frame.yes with
        | none => Item.ifThen body
        | some yes => Item.ifElse yes body
      return ⟨frames, item :: frame.before, draft.offset⟩

/-- The program at the end of the tokens. -/
def finish (draft : Draft) : Except CompileError Program :=
  match draft.frames with
  | [] => .ok draft.items.reverse
  | frame :: _ => .error (.unterminatedIf frame.location)

end Draft

/-- The program that the tokens spell. -/
def Program.ofTokens (tokens : List Token) : Except CompileError Program := do
  let last ← tokens.foldlM Draft.step Draft.empty
  last.finish

/-- The code for the tokens. -/
def compile (tokens : List Token) : Except CompileError Code := do
  let program ← Program.ofTokens tokens
  return program.code

end Tabletop
