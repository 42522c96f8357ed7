import Tabletop.Machine.Builtin

/-!
# Running

The loop that reads instructions and carries them out, and the calls that a machine understands.
Words are run by `call`, which is a parameter until `invoke` ties the knot: a routine may call words
again, to a depth that is limited.
-/

namespace Tabletop

open Exec

/-! ## Code -/

/-- Carry out one instruction. -/
def runStep (call : String → Exec Unit) : Exec Unit := do
  let offset := (← position?).getD 0
  match ← readCode Instruction.readHead with
  | .push literal =>
    record (.pushed offset literal.value)
    push literal.value
  | .exec name =>
    record (.called offset name)
    call name

/-- Carry out instructions to the end of the running code, at most `fuel` of them. -/
def runLoop (call : String → Exec Unit) : Nat → Exec Unit
  | 0 => do
    if ← hasCode then throw .outOfFuel
  | fuel + 1 => do
    if ← hasCode then
      runStep call
      runLoop call fuel

/-- What a run writes into the journal at its end. -/
def Machine.close (machine : Machine) (event : Event) (before : Option (Cursor UInt8)) : Machine :=
  { machine with code := before, journal := event :: machine.journal }

/-- Run code on the stack as it is. Afterwards the code that was running before goes on. Every
instruction moves ahead in the code, so there are no more of them to carry out than bytes. -/
def Exec.runCode (call : String → Exec Unit) (code : Code) : Exec Unit := fun machine =>
  let entered := { machine with
    code := some (.start code), journal := .started code.length :: machine.journal }
  match runLoop call code.length entered with
  | .ok () after => .ok () (after.close (.finished after.stack.peak) machine.code)
  | .error (.failed e) after => .error (.failed e) (after.close (.stopped e) machine.code)
  | .error .outOfFuel after => .error .outOfFuel { after with code := machine.code }

/-- Run a text as a program of its own, on an empty stack. A text that is no program leaves the
stack alone. -/
def Exec.runSource (call : String → Exec Unit) (path source : String) : Exec Unit := do
  let code ← ofLogged (loadLogged path source)
  modify fun machine => { machine with stack := .empty }
  runCode call code

/-- The path of texts that come from no file. -/
def inputPath : String := "<input>"

/-- Run a text on the stack as it is. -/
def Exec.evaluate (call : String → Exec Unit) (source : String) : Exec Unit := do
  let code ← ofLogged (loadLogged inputPath source)
  runCode call code

/-! ## Words -/

/-- Run the word known under the name, where `act` carries out its action. -/
def callWord (act : Action → Exec Unit) (name : String) : Exec Unit := fun machine =>
  match machine.dictionary.find? name with
  | none => .error (.failed (.runtime (.unknownWord name))) machine
  | some word =>
    match act word.action { machine with word := some name } with
    | .ok () after => .ok () { after with word := machine.word }
    | .error stop after => .error stop { after with word := machine.word }

/-! ## Calls -/

/-- Carry something out that has no answer. -/
def Exec.silently (exec : Exec Unit) : Exec (Reply Word) := do
  exec
  return .nothing

/-- Carry something out, and go on whether it fails or not. -/
def Exec.attempt (exec : Exec Unit) (next : Option Error → Exec Unit) : Exec Unit := fun machine =>
  match exec machine with
  | .ok () after => next none after
  | .error (.failed e) after => next (some e) after
  | .error .outOfFuel after => .error .outOfFuel after

/-- Make a word known under its name. -/
def Exec.define (word : Word) : Exec Unit :=
  modify fun machine => { machine with
    dictionary := machine.dictionary.insert word.name word }

mutual

/-- Make one call. -/
def Call.perform (call : String → Exec Unit) : Call → Exec (Reply Word)
  | .runSource path source => Exec.silently (Exec.runSource call path source)
  | .runCode code => Exec.silently (Exec.runCode call code)
  | .evaluate source => Exec.silently (Exec.evaluate call source)
  | .execute name => Exec.silently (call name)
  | .push value => Exec.silently (Exec.push value)
  | .pushSize n => Exec.silently (Exec.pushSize n)
  | .pop => return .value (← Exec.pop)
  | .popInt => return .int (← Exec.popInt)
  | .popBool => return .flag (← Exec.popBool)
  | .popDirection => return .direction (← Exec.popDirection)
  | .position => return .position (← Exec.position?)
  | .currentWord => return .name (← get).word
  | .readTarget => return .number (← Exec.readTarget)
  | .jumpTo target => Exec.silently (Exec.jumpTo target)
  | .define heading body => Exec.silently (Exec.define ⟨heading, .routine body⟩)
  | .find name => return .word ((← get).dictionary.find? name)
  | .countWords => return .number (← get).dictionary.size
  | .print text => Exec.silently (Exec.print text)
  | .fail message => Exec.fail (.reported message)
  | .order o => return .flag (← Exec.order o)
  | .andThen c next => do
    let reply ← c.perform call
    Exec.silently (Call.performAll call (next (reply.map Word.toHeading)))
  | .attempt body next =>
    Exec.silently (Exec.attempt (Call.performAll call body) fun e =>
      Call.performAll call (next e))

/-- Make calls up to the first that fails. -/
def Call.performAll (call : String → Exec Unit) : List Call → Exec Unit
  | [] => pure ()
  | c :: rest => do
    let _ ← c.perform call
    Call.performAll call rest

end

/-- Run the word known under the name. Routines may call words to the given depth. -/
def invoke : Nat → String → Exec Unit
  | 0, _ => throw .outOfFuel
  | depth + 1, name => callWord (fun
    | .builtin b => b.run
    | .routine body => Call.performAll (invoke depth) body) name

/-- How deep routines may call one another. -/
def deepestCall : Nat := 100000

/-- Make a call from outside. -/
def Machine.perform (machine : Machine) (call : Call) :
    EStateM.Result Stop Machine (Reply Word) :=
  call.perform (invoke deepestCall) machine

end Tabletop
