import Tabletop.Program.Compile

/-!
# Writing code in one pass

Code can be written token by token, with no program in between. The branch of a conditional is then
written before it is known where it leads, so it gets a gap where its target belongs. The gap is
filled when the code has reached the target, at an `ELSE` or a `THEN`.
-/

namespace Tabletop

/-- A conditional that is not closed yet: where the target of its branch is to be written, where
that of its jump is, once an `ELSE` has been met, and where it was opened. -/
structure Gap where
  branch : Nat
  jump : Option Nat
  location : Location

/-- Code in the making and the open conditionals, innermost first. -/
structure Emitter where
  code : Code
  gaps : List Gap

namespace Emitter

def empty : Emitter := ⟨[], []⟩

/-- Write bytes at the end. -/
def emit (emitter : Emitter) (bytes : Code) : Emitter :=
  { emitter with code := emitter.code ++ bytes }

/-- Write a call to a word that needs a target, with a gap in its place. Gives the place of the
gap. -/
def emitGap (emitter : Emitter) (name : String) : Nat × Emitter :=
  let called := emitter.emit (encodeCall name)
  (called.code.length, called.emit [0, 0])

/-- Fill a gap with a target. -/
def fill (emitter : Emitter) (gap destination : Nat) : Except CompileError Emitter := do
  let target ← targetAt destination
  let code := emitter.code.take gap ++ encodeTarget target ++ emitter.code.drop (gap + 2)
  return { emitter with code }

/-- Take one token. -/
def step (emitter : Emitter) (token : Token) : Except CompileError Emitter := do
  match ← Part.ofToken token with
  | .leaf leaf => return emitter.emit leaf.instruction.encode
  | .openIf =>
    let (branch, emitted) := emitter.emitGap branchName
    return { emitted with gaps := ⟨branch, none, token.location⟩ :: emitter.gaps }
  | .orElse =>
    match emitter.gaps with
    | [] => throw (.unmatchedElse token.location)
    | gap :: gaps =>
      if gap.jump.isSome then throw (.duplicateElse token.location)
      let (jump, emitted) := emitter.emitGap jumpName
      let filled ← emitted.fill gap.branch emitted.code.length
      return { filled with gaps := { gap with jump := some jump } :: gaps }
  | .closeIf =>
    match emitter.gaps with
    | [] => throw (.unmatchedThen token.location)
    | gap :: gaps =>
      let filled ← emitter.fill (gap.jump.getD gap.branch) emitter.code.length
      return { filled with gaps }

/-- The code at the end of the tokens. -/
def finish (emitter : Emitter) : Except CompileError Code :=
  match emitter.gaps with
  | [] => .ok emitter.code
  | gap :: _ => .error (.unterminatedIf gap.location)

end Emitter

/-- The code for the tokens, written in one pass. -/
def emitCode (tokens : List Token) : Except CompileError Code := do
  let last ← tokens.foldlM Emitter.step Emitter.empty
  last.finish

end Tabletop
