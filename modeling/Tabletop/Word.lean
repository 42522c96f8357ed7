import Tabletop.Error
import Tabletop.Robot

/-!
# Words

A word is what a program can call by name. Some words are built in; others are added, and run a
routine, which is a list of the calls that a machine understands. What a routine calls next may
depend on what it was answered before and on the errors that it catches.
-/

namespace Tabletop

/-! ## Built-in words -/

inductive Builtin where
  | branch | jump
  | add | subtract | multiply | divide | greater | less | equal | not
  | dup | drop | swap | copyOver | depth
  | print | printStack | printWords
  | place | move | left | right | report
deriving DecidableEq, Repr

/-- The families of built-in words. -/
inductive Builtin.Group where
  | control
  | math
  | stack
  | printing
  | robot
deriving DecidableEq, Repr

namespace Builtin

def Group.all : List Group := [control, math, stack, printing, robot]

def Group.words : Group → List Builtin
  | control => [branch, jump]
  | math => [add, subtract, multiply, divide, greater, less, equal, not]
  | stack => [dup, drop, swap, copyOver, depth]
  | printing => [print, printStack, printWords]
  | robot => [place, move, left, right, report]

def name : Builtin → String
  | branch => branchName
  | jump => jumpName
  | add => "+"
  | subtract => "-"
  | multiply => "*"
  | divide => "/"
  | greater => "GT"
  | less => "LT"
  | equal => "EQ"
  | not => "NOT"
  | dup => "DUP"
  | drop => "DROP"
  | swap => "SWAP"
  | copyOver => "OVER"
  | depth => "DEPTH"
  | print => "."
  | printStack => ".S"
  | printWords => "WORDS"
  | place => "PLACE"
  | move => "MOVE"
  | left => "LEFT"
  | right => "RIGHT"
  | report => "REPORT"

/-- What a word takes from the stack and what it leaves there. -/
def signature : Builtin → String
  | branch => "flag -- "
  | add => "a b -- sum"
  | subtract => "a b -- difference"
  | multiply => "a b -- product"
  | divide => "a b -- quotient"
  | greater | less | equal => "a b -- flag"
  | not => "flag -- !flag"
  | dup => "value -- value value"
  | drop | print => "value -- "
  | swap => "a b -- b a"
  | copyOver => "a b -- a b a"
  | depth => " -- depth"
  | place => "x y direction -- "
  | jump | printStack | printWords | move | left | right | report => " -- "

def description : Builtin → String
  | branch => "Skip to the matching ELSE or THEN if the flag is false."
  | jump => "Jump forward, used to skip the ELSE branch of a conditional."
  | add => "Add two integers."
  | subtract => "Subtract the top integer from the one below it."
  | multiply => "Multiply two integers."
  | divide => "Divide the second integer by the top one."
  | greater => "Is the second integer greater than the top one?"
  | less => "Is the second integer less than the top one?"
  | equal => "Are the top two values equal?"
  | not => "Invert a flag."
  | dup => "Duplicate the top value on the data stack."
  | drop => "Discard the top value."
  | swap => "Swap the top 2 values."
  | copyOver => "Copy the second value over the top one."
  | depth => "Push the number of values on the stack."
  | print => "Print the top value."
  | printStack => "Print the stack without changing it."
  | printWords => "List every known word."
  | place => "Place the robot on the table at x, y facing the given direction."
  | move => "Move the robot forward one square."
  | left => "Turn the robot to its left."
  | right => "Turn the robot to its right."
  | report => "Print the robot's position and direction."

end Builtin

/-! ## Calls and words -/

/-- What a dictionary tells about a word. Built-in words stand nowhere. -/
structure Heading where
  name : String
  location : Option Location
  description : String
  signature : String
deriving DecidableEq, Repr

/-- What a call answers, where words are told by `ω`. -/
inductive Reply (ω : Type) where
  | nothing
  | value (value : Value)
  | int (n : Int64)
  | flag (b : Bool)
  | direction (d : Direction)
  | number (n : Nat)
  | position (offset : Option Nat)
  | name (word : Option String)
  | word (word : Option ω)

/-- The answer with words told in another way. -/
def Reply.map {ω ψ : Type} (f : ω → ψ) : Reply ω → Reply ψ
  | nothing => .nothing
  | value v => .value v
  | int n => .int n
  | flag b => .flag b
  | direction d => .direction d
  | number n => .number n
  | position offset => .position offset
  | name w => .name w
  | word w => .word (w.map f)

/-- What a machine can be asked to do, by its owner or by a routine. -/
inductive Call where
  /-- Run a text as a program of its own, on an empty stack. -/
  | runSource (path source : String)
  /-- Run code on the stack as it is. -/
  | runCode (code : Code)
  /-- Run a text on the stack as it is. -/
  | evaluate (source : String)
  | execute (name : String)
  | push (value : Value)
  /-- Push a length, whose 64 bits are taken for a signed integer. -/
  | pushSize (n : UInt64)
  | pop
  | popInt
  | popBool
  | popDirection
  /-- Where the running code is read next. -/
  | position
  /-- Which word is running. -/
  | currentWord
  /-- Read a target from the running code. -/
  | readTarget
  | jumpTo (target : Nat)
  /-- Add a word that makes the calls of `body`. -/
  | define (heading : Heading) (body : List Call)
  | find (name : String)
  | countWords
  | print (text : String)
  | fail (message : String)
  | order (order : Order)
  /-- Make a call, and then those that its answer leads to. -/
  | andThen (call : Call) (next : Reply Heading → List Call)
  /-- Make the calls of `body` up to the first that fails, and then those that its error, or that
  there is none, leads to. -/
  | attempt (body : List Call) (next : Option Error → List Call)

/-- What runs when a word is called. -/
inductive Action where
  | builtin (word : Builtin)
  | routine (body : List Call)

structure Word extends Heading where
  action : Action

/-- The dictionary entry of a built-in word. -/
def Builtin.word (b : Builtin) : Word where
  name := b.name
  location := none
  description := b.description
  signature := b.signature
  action := .builtin b

end Tabletop
