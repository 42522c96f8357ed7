import Mathlib.Tactic.SplitIfs
import Tabletop.Proofs.Isolation

/-!
# The path of a text

The scanner and the compiler carry the path of the text along in locations and never look at it. So
the same text under another path gives the same code, or the same error with other locations
(`codeOf_under`), and what its code does is not affected at all (`programOutcome_under`). For both
of them it is enough that one step commutes with the change of the path.
-/

namespace Tabletop

/-! ## Other locations -/

/-- The same place in a text of another path. -/
def Location.under (path : String) (location : Location) : Location := { location with path }

private theorem Location.after_under (path : String) (location : Location) (c : Char) :
    (location.under path).after c = (location.after c).under path := by
  unfold Location.after
  split <;> rfl

/-- The same token in a text of another path. -/
def Token.under (path : String) (token : Token) : Token :=
  { token with location := token.location.under path }

def ScanError.under (path : String) : ScanError → ScanError
  | unterminatedString location => .unterminatedString (location.under path)
  | invalidCharacter location c => .invalidCharacter (location.under path) c
  | invalidNumber location digits => .invalidNumber (location.under path) digits

def CompileError.under (path : String) : CompileError → CompileError
  | payloadMismatch location kind lexeme => .payloadMismatch (location.under path) kind lexeme
  | unmatchedElse location => .unmatchedElse (location.under path)
  | unmatchedThen location => .unmatchedThen (location.under path)
  | duplicateElse location => .duplicateElse (location.under path)
  | unterminatedIf location => .unterminatedIf (location.under path)
  | invalidWordName location name => .invalidWordName (location.under path) name
  | invalidStringLiteral location => .invalidStringLiteral (location.under path)
  | reservedWord location name => .reservedWord (location.under path) name
  | literalOutOfRange location n => .literalOutOfRange (location.under path) n
  | programTooLarge target => .programTooLarge target

/-- The same error about a text of another path. Only the errors of scanning and compiling tell
where they are. -/
def Error.under (path : String) : Error → Error
  | scan error => .scan (error.under path)
  | compile error => .compile (error.under path)
  | error => error

/-! ## Outcomes that correspond -/

section Outcomes

variable {α β α' β' ε ε' : Type}

/-- The outcome with the result and the error translated. -/
def translate (result : α → β) (error : ε → ε') : Except ε α → Except ε' β
  | .ok a => .ok (result a)
  | .error e => .error (error e)

private theorem bind_translate {x : Except ε α} {x' : Except ε' α'} {f : α → Except ε β}
    {f' : α' → Except ε' β'} {g : α → α'} {g' : β → β'} {error : ε → ε'}
    (hx : x' = translate g error x) (hf : ∀ a, f' (g a) = translate g' error (f a)) :
    (x' >>= f') = translate g' error (x >>= f) := by
  subst hx
  cases x with
  | ok a => exact hf a
  | error e => rfl

/-- What one step does to corresponding states, many steps do. -/
theorem foldlM_translate {σ σ' τ τ' : Type} {f : σ → τ → Except ε σ} {f' : σ' → τ' → Except ε' σ'}
    {g : σ → σ'} {k : τ → τ'} {error : ε → ε'}
    (hstep : ∀ s t, f' (g s) (k t) = translate g error (f s t)) (ts : List τ) (s : σ) :
    (ts.map k).foldlM f' (g s) = translate g error (ts.foldlM f s) := by
  induction ts generalizing s with
  | nil => rfl
  | cons t ts ih =>
    rw [List.map_cons, List.foldlM_cons, List.foldlM_cons]
    exact bind_translate (hstep s t) ih

end Outcomes

/-! ## Scanning -/

namespace Token

section Scanning

variable (path : String)

def Scan.Mode.under : Scan.Mode → Scan.Mode
  | between => .between
  | bare start text => .bare (start.under path) text
  | quoted start text => .quoted (start.under path) text

/-- The same state of scanning a text of another path. -/
def Scan.under (scan : Scan) : Scan :=
  ⟨scan.mode.under path, scan.location.under path, scan.tokens.map (Token.under path)⟩

private theorem ofBare_under (location : Location) (text : List Char) :
    ofBare (location.under path) text =
      translate (Token.under path) (ScanError.under path) (ofBare location text) := by
  unfold ofBare
  dsimp only
  split
  · split <;> rfl
  · split <;> rfl

private theorem Scan.step_under (scan : Scan) (c : Char) :
    (scan.under path).step c =
      translate (Scan.under path) (ScanError.under path) (scan.step c) := by
  obtain ⟨mode, location, tokens⟩ := scan
  cases mode with
  | between =>
    simp only [step, under, Mode.under, Location.after_under]
    split_ifs <;> rfl
  | bare start text =>
    simp only [step, under, Mode.under, Location.after_under]
    split_ifs
    · exact bind_translate (ofBare_under path start text.reverse) fun token => rfl
    · rfl
    · rfl
  | quoted start text =>
    simp only [step, under, Mode.under, Location.after_under]
    split_ifs <;> rfl

private theorem Scan.finish_under (scan : Scan) :
    (scan.under path).finish =
      translate (List.map (Token.under path)) (ScanError.under path) scan.finish := by
  obtain ⟨mode, location, tokens⟩ := scan
  cases mode with
  | between => exact congrArg Except.ok List.map_reverse.symm
  | bare start text =>
    refine bind_translate (ofBare_under path start text.reverse) fun token => ?_
    exact congrArg Except.ok (@List.map_reverse _ _ (Token.under path) (token :: tokens)).symm
  | quoted start text => rfl

private theorem scan_under (path' source : String) :
    scan path source =
      translate (List.map (Token.under path)) (ScanError.under path) (scan path' source) := by
  refine bind_translate ?_ (Scan.finish_under path)
  have hfold := foldlM_translate (k := id) (Scan.step_under path) source.toList (Scan.start path')
  rwa [List.map_id] at hfold

end Scanning

end Token

/-! ## Compiling -/

section Compiling

variable (path : String)

private theorem Part.ofWord_under (location : Location) (name : String) :
    Part.ofWord (location.under path) name =
      translate id (CompileError.under path) (Part.ofWord location name) := by
  unfold Part.ofWord
  split_ifs <;> rfl

private theorem Part.ofToken_under (token : Token) :
    Part.ofToken (token.under path) =
      translate id (CompileError.under path) (Part.ofToken token) := by
  obtain ⟨location, kind, payload, lexeme⟩ := token
  simp only [Part.ofToken, Token.under]
  split
  · split <;> rfl
  · rfl
  · rfl
  · split <;> rfl
  · exact Part.ofWord_under path location _
  · rfl

private theorem targetAt_under (offset : Nat) :
    targetAt offset = translate id (CompileError.under path) (targetAt offset) := by
  unfold targetAt
  split <;> rfl

def Frame.under (frame : Frame) : Frame := { frame with location := frame.location.under path }

/-- The same draft for a text of another path. -/
def Draft.under (draft : Draft) : Draft :=
  { draft with frames := draft.frames.map (Frame.under path) }

private theorem Draft.step_under (draft : Draft) (token : Token) :
    (draft.under path).step (token.under path) =
      translate (Draft.under path) (CompileError.under path) (draft.step token) := by
  obtain ⟨frames, items, offset⟩ := draft
  refine bind_translate (Part.ofToken_under path token) fun part => ?_
  -- The part is the same. Locations are in the frames, and no check looks at them.
  cases part with
  | leaf leaf => rfl
  | openIf => rfl
  | orElse =>
    cases frames with
    | nil => rfl
    | cons frame frames =>
      obtain ⟨start, before, yes⟩ := frame
      cases yes with
      | none => exact bind_translate (targetAt_under path (offset + jumpSize)) fun _ => rfl
      | some yes => rfl
  | closeIf =>
    cases frames with
    | nil => rfl
    | cons frame frames => exact bind_translate (targetAt_under path offset) fun _ => rfl

private theorem Draft.finish_under (draft : Draft) :
    (draft.under path).finish = translate id (CompileError.under path) draft.finish := by
  obtain ⟨frames, items, offset⟩ := draft
  cases frames <;> rfl

private theorem compile_under (tokens : List Token) :
    compile (tokens.map (Token.under path)) =
      translate id (CompileError.under path) (compile tokens) := by
  have hfold := foldlM_translate (Draft.step_under path) tokens Draft.empty
  exact bind_translate (bind_translate hfold (Draft.finish_under path)) fun program => rfl

/-- A text has the same code under another path, or the same error at another place. -/
theorem codeOf_under (path' source : String) :
    codeOf path source = translate id (Error.under path) (codeOf path' source) := by
  unfold codeOf
  rw [Token.scan_under path path']
  cases Token.scan path' source with
  | error e => rfl
  | ok tokens =>
    simp only [translate, compile_under]
    cases compile tokens <;> rfl

end Compiling

/-! ## Running -/

section Running

variable {code : Code} {path source : String}

private theorem error?_runCode (call : String → Exec Unit) (code : Code) (machine : Machine) :
    error? (Exec.runCode call code machine) = error? (runRest call (machine.enter code)) := by
  rw [runCode_eq_runRest]
  cases runRest call (machine.enter code) with
  | ok u after => rfl
  | error stop after => cases stop <;> rfl

/-- Compiled code stops only by what it does, and such an error has no location. -/
theorem codeOutcome_error_under (hcode : codeOf path source = .ok code) (robot : Robot)
    (path' : String) :
    (codeOutcome code robot).error.map (Error.under path') = (codeOutcome code robot).error := by
  obtain ⟨tokens, -, hcompile⟩ := codeOf_eq_ok hcode
  have hwell := wellFormed_of_compile hcompile
  obtain ⟨instructions, hencodable, rfl, haimed⟩ := wellFormed_iff.1 hwell
  have hready : (robot.machine.enter (Instruction.encodeAll instructions)).Ready
      Builtin.Group.all instructions := ⟨rfl, _, rfl, ⟨hencodable, rfl⟩, haimed⟩
  obtain ⟨depth, hdepth⟩ := exists_deepestCall
  have hend := @runRest_ready _ _ depth _ hready
  rw [← hdepth] at hend
  have herror : (codeOutcome (Instruction.encodeAll instructions) robot).error = (error? (runRest
      (invoke deepestCall) (robot.machine.enter (Instruction.encodeAll instructions)))).bind
        Stop.error? := by
    rw [← error?_runCode]
    rfl
  rw [herror]
  generalize runRest _ _ = result at hend
  cases result with
  | ok u after => rfl
  | error stop after =>
    obtain ⟨e, rfl⟩ := hend.runtime
    rfl

/-- A program prints the same under another path and leaves the robot alike, and its error is the
same but for the place. -/
theorem programOutcome_under (showCode : Bool) (path path' source : String) (robot : Robot) :
    let outcome := programOutcome showCode path source robot
    let outcome' := programOutcome showCode path' source robot
    outcome.printed = outcome'.printed ∧ outcome.robot = outcome'.robot ∧
      outcome.error = outcome'.error.map (Error.under path) := by
  intro outcome outcome'
  simp only [outcome, outcome', programOutcome, codeOf_under path path' source]
  cases hcode : codeOf path' source with
  | error e => exact ⟨rfl, rfl, rfl⟩
  | ok code => exact ⟨rfl, rfl, (codeOutcome_error_under hcode robot path).symm⟩

end Running

end Tabletop
