import Tabletop.Text.Blank
import Tabletop.Token

/-!
# Scanning

A text is cut into tokens by a machine that takes one character at a time. Between tokens it skips
blanks. A double quote there opens a string, which runs to the next double quote and may hold any
other character but NUL. Any other character opens a bare run of visible ASCII characters, which a
blank or the end of the text closes.

A bare run of digits is a number, the names of the directions and truth values stand for those, and
every other run is a word.
-/

namespace Tabletop

/-- Why a text cannot be cut into tokens. -/
inductive ScanError where
  /-- The string opened at `location` is never closed. -/
  | unterminatedString (location : Location)
  | invalidCharacter (location : Location) (c : Char)
  /-- The digits at `location` denote a number of more than 64 bits. -/
  | invalidNumber (location : Location) (digits : String)
deriving DecidableEq, Repr

def ScanError.message : ScanError → String
  | unterminatedString _ => "unterminated string"
  | invalidCharacter location c =>
    location.text ++ ": invalid character " ++ Text.quotedChar c
  | invalidNumber location digits =>
    location.text ++ ": number " ++ digits ++ " is too large"

namespace Token

/-- Is this one of the characters that bare runs are made of? -/
def isGraphic (c : Char) : Bool := '!' ≤ c && c ≤ '~'

/-- The token that a bare run spells. -/
def ofBare (location : Location) (text : List Char) : Except ScanError Token :=
  let lexeme := String.ofList text
  if text.all Text.isDigit then
    let n := Text.decimalValue text
    if n < UInt64.size then .ok ⟨location, .number, .number (UInt64.ofNat n), lexeme⟩
    else .error (.invalidNumber location lexeme)
  else
    match Direction.ofName? lexeme, boolOfName? lexeme with
    | some d, _ => .ok (ofDirection d location)
    | none, some b => .ok (ofBool b location)
    | none, none => .ok (ofWord lexeme location)

/-! ## The machine -/

/-- What the machine is in the middle of. The characters of an open token are kept newest first. -/
inductive Scan.Mode where
  | between
  | bare (start : Location) (text : List Char)
  | quoted (start : Location) (text : List Char)

/-- The machine's state: `location` is that of the next character, `tokens` are newest first. -/
structure Scan where
  mode : Scan.Mode
  location : Location
  tokens : List Token

namespace Scan

def start (path : String) : Scan := ⟨.between, .start path, []⟩

/-- Take one character. A NUL inside a string is reported at the place that follows it, any other
invalid character at its own. -/
def step (scan : Scan) (c : Char) : Except ScanError Scan :=
  let next := scan.location.after c
  match scan.mode with
  | .between =>
    if Text.isBlank c then .ok { scan with location := next }
    else if c = '\"' then .ok { scan with mode := .quoted scan.location [], location := next }
    else if isGraphic c then .ok { scan with mode := .bare scan.location [c], location := next }
    else .error (.invalidCharacter scan.location c)
  | .bare start text =>
    if Text.isBlank c then do
      let token ← ofBare start text.reverse
      return ⟨.between, next, token :: scan.tokens⟩
    else if isGraphic c then .ok { scan with mode := .bare start (c :: text), location := next }
    else .error (.invalidCharacter scan.location c)
  | .quoted start text =>
    if c = '\"' then
      .ok ⟨.between, next, ofString (String.ofList text.reverse) start :: scan.tokens⟩
    else if c = '\x00' then .error (.invalidCharacter next c)
    else .ok { scan with mode := .quoted start (c :: text), location := next }

/-- The tokens at the end of the text. -/
def finish (scan : Scan) : Except ScanError (List Token) :=
  match scan.mode with
  | .between => .ok scan.tokens.reverse
  | .bare start text => do
    let token ← ofBare start text.reverse
    return (token :: scan.tokens).reverse
  | .quoted start _ => .error (.unterminatedString start)

end Scan

/-- Cut the text named `path` into tokens. -/
def scan (path source : String) : Except ScanError (List Token) := do
  let last ← source.toList.foldlM Scan.step (Scan.start path)
  last.finish

end Token

end Tabletop
