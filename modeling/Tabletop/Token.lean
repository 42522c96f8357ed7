import Tabletop.Location
import Tabletop.Value

/-!
# Tokens

The words of a program, each with the text it was written as, what it stands for, and its place.
-/

namespace Tabletop

/-- The five kinds of token. -/
inductive Token.Kind where
  | number
  | direction
  | bool
  | string
  | word
deriving DecidableEq, Repr

def Token.Kind.name : Token.Kind → String
  | number => "NUMBER"
  | direction => "DIRECTION"
  | bool => "BOOL"
  | string => "STRING"
  | word => "WORD"

/-- What a token stands for. Strings and words both hold a text. -/
inductive Token.Payload where
  | number (n : UInt64)
  | direction (d : Direction)
  | bool (b : Bool)
  | text (s : String)
deriving DecidableEq, Repr

/-- A token. A scanned token has the payload that its kind asks for; one made by hand need not. -/
structure Token where
  location : Location
  kind : Token.Kind
  payload : Token.Payload
  lexeme : String
deriving DecidableEq, Repr

namespace Token

/-! ## Tokens for given contents -/

def ofNumber (n : UInt64) (location : Location) : Token :=
  ⟨location, .number, .number n, Text.showNat n.toNat⟩

def ofDirection (d : Direction) (location : Location) : Token :=
  ⟨location, .direction, .direction d, d.name⟩

def ofBool (b : Bool) (location : Location) : Token :=
  ⟨location, .bool, .bool b, boolName b⟩

def ofString (s : String) (location : Location) : Token :=
  ⟨location, .string, .text s, "\"" ++ s ++ "\""⟩

def ofWord (name : String) (location : Location) : Token :=
  ⟨location, .word, .text name, name⟩

/-! ## Comparing and showing -/

/-- Are the two tokens the same, wherever they stand? -/
def same (a b : Token) : Bool :=
  a.kind == b.kind && a.payload == b.payload && a.lexeme == b.lexeme

/-- A token as its kind and its text. -/
def text (token : Token) : String := token.kind.name ++ " " ++ token.lexeme

end Token

end Tabletop
