import Tabletop.CommandLine
import Tabletop.Proofs.Surroundings

/-!
# What a program does

A program from the command line is run by a machine that has run others before it. It starts on an
empty stack, and all it finds of the others is the robot and what has been printed. So what it does
(`Outcome`) is a function of its text and the robot (`programOutcome`), whatever else the machine
has come through (`runProgram_yields`). A listing, if one is asked for, is printed in front of what
the program prints, and the logger is told of the compilation twice; nothing else changes.
-/

namespace Tabletop

open Exec

/-! ## From a text to its code -/

/-- The code of a text, or why it is no program. -/
def codeOf (path source : String) : Except Error Code :=
  match Token.scan path source with
  | .error e => .error (.scan e)
  | .ok tokens =>
    match compile tokens with
    | .error e => .error (.compile e)
    | .ok code => .ok code

/-- What the logger is told on the way from a text to its code. -/
def loadLog (path source : String) : List Event :=
  match Token.scan path source with
  | .error _ => []
  | .ok tokens =>
    match compile tokens with
    | .error _ => [.scanned path tokens.length]
    | .ok code => [.scanned path tokens.length, .compiled tokens.length code.length]

section Code

variable {path source : String} {code : Code} {e : Error}

theorem codeOf_eq_ok (h : codeOf path source = .ok code) :
    ∃ tokens, Token.scan path source = .ok tokens ∧ compile tokens = .ok code := by
  unfold codeOf at h
  cases hscan : Token.scan path source with
  | error e => simp [hscan] at h
  | ok tokens =>
    cases hcompile : compile tokens with
    | error e => simp [hscan, hcompile] at h
    | ok code' =>
      simp only [hscan, hcompile, Except.ok.injEq] at h
      exact ⟨tokens, rfl, h ▸ hcompile⟩

theorem exists_codeOf (h : (codeOf path source).toOption.isSome = true) :
    ∃ code, codeOf path source = .ok code := by
  cases hcode : codeOf path source with
  | ok code => exact ⟨code, rfl⟩
  | error e =>
    rw [hcode] at h
    cases h

/-- A text that is no program fails to be cut into tokens, or its tokens fail to compile. -/
theorem codeOf_eq_error (h : codeOf path source = .error e) :
    (∃ e', Token.scan path source = .error e' ∧ e = .scan e') ∨
      ∃ tokens e', Token.scan path source = .ok tokens ∧ compile tokens = .error e' ∧
        e = .compile e' := by
  unfold codeOf at h
  cases hscan : Token.scan path source with
  | error e' =>
    simp only [hscan, Except.error.injEq] at h
    exact .inl ⟨e', rfl, h.symm⟩
  | ok tokens =>
    cases hcompile : compile tokens with
    | error e' =>
      simp only [hscan, hcompile, Except.error.injEq] at h
      exact .inr ⟨tokens, e', rfl, hcompile, h.symm⟩
    | ok code' => simp [hscan, hcompile] at h

private theorem scanLogged_of_ok {tokens : List Token} (h : Token.scan path source = .ok tokens)
    (journal : Journal) :
    scanLogged path source journal = .ok tokens (.scanned path tokens.length :: journal) := by
  simp only [scanLogged, h]
  rfl

private theorem load_of_ok (h : codeOf path source = .ok code) (machine : Machine) :
    ofLogged (loadLogged path source) machine =
      .ok code { machine with journal := (loadLog path source).reverse ++ machine.journal } := by
  obtain ⟨tokens, hscan, hcompile⟩ := codeOf_eq_ok h
  have hload : loadLogged path source machine.journal =
      .ok code ((loadLog path source).reverse ++ machine.journal) := by
    refine (bind_eq_of_ok (scanLogged_of_ok hscan machine.journal)).trans ?_
    simp only [compileLogged, loadLog, hscan, hcompile]
    rfl
  simp only [ofLogged, hload]

private theorem load_of_error (h : codeOf path source = .error e) (machine : Machine) :
    ofLogged (loadLogged path source) machine = .error (.failed e)
      { machine with journal := (loadLog path source).reverse ++ machine.journal } := by
  have hload : loadLogged path source machine.journal =
      .error e ((loadLog path source).reverse ++ machine.journal) := by
    rcases codeOf_eq_error h with ⟨e', hscan, rfl⟩ | ⟨tokens, e', hscan, hcompile, rfl⟩
    · refine bind_eq_of_error ?_
      simp only [scanLogged, loadLog, hscan]
      rfl
    · refine (bind_eq_of_ok (scanLogged_of_ok hscan machine.journal)).trans ?_
      simp only [compileLogged, loadLog, hscan, hcompile]
      rfl
  simp only [ofLogged, hload]

/-- Compiled code can be listed. -/
theorem exists_listing (h : codeOf path source = .ok code) :
    ∃ text, Instruction.listing code = .ok text := by
  obtain ⟨tokens, -, hcompile⟩ := codeOf_eq_ok h
  obtain ⟨listing, hdecode, -⟩ := wellFormed_of_compile hcompile
  exact listing_of_ok hdecode

end Code

/-! ## Outcomes -/

/-- What outlives a program: what it prints, what the logger is told of it, the error that it stops
with unless it comes to its end, and the robot as it leaves it. -/
structure Outcome where
  printed : List UInt8
  log : List Event
  error : Option Error
  robot : Robot

/-- The same with bytes in front of what is printed and events in front of what is told. -/
def Outcome.behind (outcome : Outcome) (bytes : List UInt8) (events : List Event) : Outcome :=
  { outcome with printed := bytes ++ outcome.printed, log := events ++ outcome.log }

/-- A machine that has run no program yet, but has the robot. -/
def Robot.machine (robot : Robot) : Machine := { Machine.standard robot.table with robot }

def Stop.error? : Stop → Option Error
  | failed e => some e
  | outOfFuel => none

/-- What code does on an empty stack. -/
def codeOutcome (code : Code) (robot : Robot) : Outcome :=
  let result := Exec.runCode (invoke deepestCall) code robot.machine
  { printed := (endState result).output.bytes
    log := (endState result).journal.reverse
    error := (error? result).bind Stop.error?
    robot := (endState result).robot }

/-- What is printed in front of the output of a program: the listing of its code, if it is asked
for. -/
def heading (showCode : Bool) (code : Code) : List UInt8 :=
  if showCode then ((Instruction.listing code).toOption.map Text.utf8).getD [] else []

private theorem heading_false (code : Code) : heading false code = [] := rfl

theorem heading_of_listing {code : Code} {text : String} (h : Instruction.listing code = .ok text) :
    heading true code = Text.utf8 text := by
  simp [heading, h, Except.toOption]

/-- What is told of a program before it runs. Its text is compiled for the listing and once more for
the run. -/
def preamble (showCode : Bool) (path source : String) : List Event :=
  if showCode then loadLog path source ++ loadLog path source else loadLog path source

/-- What the program with the text does to the robot. -/
def programOutcome (showCode : Bool) (path source : String) (robot : Robot) : Outcome :=
  match codeOf path source with
  | .error e => ⟨[], loadLog path source, some e, robot⟩
  | .ok code =>
    (codeOutcome code robot).behind (heading showCode code) (preamble showCode path source)

/-- The machine is between two programs: it knows the built-in words, runs nothing, prints without
limit and has nothing left to tell. -/
structure Machine.AtRest (machine : Machine) : Prop where
  words : machine.dictionary = .ofGroups Builtin.Group.all
  code : machine.code = none
  word : machine.word = none
  limits : machine.output.limits = []
  journal : machine.journal = []

/-- The result has this outcome for the machine, and leaves a machine that has printed as much more
and is at rest once the logger has been told. -/
structure Machine.Yields (machine : Machine) (outcome : Outcome)
    (result : EStateM.Result Stop Machine Unit) : Prop where
  error : error? result = outcome.error.map .failed
  output : (endState result).output = machine.output.append outcome.printed
  log : (endState result).journal = outcome.log.reverse
  robot : (endState result).robot = outcome.robot
  atRest : (endState result).turnPage.AtRest

theorem Machine.standard_atRest (table : Table) : (Machine.standard table).AtRest :=
  ⟨rfl, rfl, rfl, rfl, rfl⟩

section Programs

variable {machine : Machine} {path source : String} {code : Code} {showCode : Bool}

/-- Built-in words never run out of steps, so code comes to its end or stops with an error. -/
theorem error?_eq_codeOutcome (code : Code) (robot : Robot) :
    error? (Exec.runCode (invoke deepestCall) code robot.machine) =
      (codeOutcome code robot).error.map .failed := by
  obtain ⟨depth, hdepth⟩ := exists_deepestCall
  unfold codeOutcome
  cases hrun : Exec.runCode (invoke deepestCall) code robot.machine with
  | ok _ after => rfl
  | error stop after =>
    rw [hdepth] at hrun
    have hstop : stop.IsError := @runCode_isError Builtin.Group.all _ _ _ _ _ rfl hrun
    cases stop with
    | failed e => rfl
    | outOfFuel => exact hstop.elim

/-- Code does the same whatever has been printed before it, to a machine that has run other programs
and to one that has not. -/
theorem runCode_yields (hrest : machine.AtRest) (bytes : List UInt8) (events : List Event) :
    machine.Yields ((codeOutcome code machine.robot).behind bytes events)
      (Exec.runCode (invoke deepestCall) code { machine with
        stack := .empty, output := machine.output.append bytes, journal := events.reverse }) := by
  let entered : Machine := { machine with
    stack := .empty, output := machine.output.append bytes, journal := events.reverse }
  have hlimits : entered.output.limits = [] := by
    simp [entered, hrest.limits, Limit.left]
  let around : Surroundings :=
    { below := [], past := entered.output, past' := .empty [], limits_eq := hlimits.symm
      log := events.reverse, log' := [], sameStack := True }
  have hwithin : entered.Within around machine.robot.machine :=
    { stack := rfl, sameStack := fun _ => rfl, output := ⟨[], rfl, rfl⟩
      journal := fun _ => ⟨[], rfl, rfl⟩, code := hrest.code.symm, word := hrest.word.symm
      robot := rfl, words := hrest.words, dictionary := hrest.words.symm }
  obtain ⟨depth, hdepth⟩ := exists_deepestCall
  have hmirrors := @runCode_mirrors entered _ around depth code hwithin fun _ _ _ => rfl
  rw [← hdepth] at hmirrors
  -- The run on a new machine prints and tells the same, behind nothing.
  obtain ⟨herror, hend⟩ := hmirrors.atEnd fun _ hexcuse => hexcuse.1 rfl
  obtain ⟨pieces, houtput, houtput'⟩ := hend.output
  obtain ⟨entries, hjournal, hjournal'⟩ := hend.journal trivial
  have hprinted : (codeOutcome code machine.robot).printed = pieces.flatten := by
    rw [codeOutcome, houtput', Output.appendAll_of_unlimited rfl]
    simp [Output.bytes, around, Output.empty]
  have hlog : (codeOutcome code machine.robot).log = entries.reverse := by
    rw [codeOutcome, hjournal', List.append_nil]
  have hcontext := (runCode_restores (invoke_keeps deepestCall) code).atEnd entered
  have herror' := error?_eq_codeOutcome code machine.robot
  change machine.Yields _ (Exec.runCode (invoke deepestCall) code entered)
  generalize Exec.runCode (invoke deepestCall) code entered = result at *
  rw [Output.appendAll_of_unlimited hlimits] at houtput
  refine ⟨herror.symm.trans herror', ?_, ?_, hend.robot.symm, ?_⟩
  · rw [houtput, Outcome.behind, hprinted, Output.append_eq_of_unlimited hrest.limits]
    simp [entered, Output.append_eq_of_unlimited hrest.limits]
  · rw [hjournal, Outcome.behind, hlog, List.reverse_append, List.reverse_reverse]
  · exact ⟨hend.words, hcontext.1.trans hrest.code, hcontext.2.trans hrest.word,
      congrArg Output.limits houtput, rfl⟩

private theorem print_of_unlimited (machine : Machine) (h : machine.output.limits = [])
    (text : String) :
    Exec.print text machine =
      .ok () { machine with output := machine.output.append (Text.utf8 text) } := by
  simp only [Exec.print, h, Limit.blocked?]

theorem runSource_of_ok (h : codeOf path source = .ok code) (machine : Machine) :
    Exec.runSource (invoke deepestCall) path source machine =
      Exec.runCode (invoke deepestCall) code { machine with
        stack := .empty, journal := (loadLog path source).reverse ++ machine.journal } :=
  bind_eq_of_ok (load_of_ok h machine)

/-- A text that is no program does nothing, whether or not its listing is asked for. -/
theorem runProgram_of_error {e : Error} (h : codeOf path source = .error e) (machine : Machine) :
    Exec.runProgram showCode path source machine = .error (.failed e)
      { machine with journal := (loadLog path source).reverse ++ machine.journal } := by
  cases showCode with
  | false => exact bind_eq_of_error (load_of_error h machine)
  | true => exact bind_eq_of_error (bind_eq_of_error (load_of_error h machine))

private theorem printListing_of_ok (h : codeOf path source = .ok code)
    (hlimits : machine.output.limits = []) :
    Exec.printListing path source machine = .ok () { machine with
      output := machine.output.append (heading true code)
      journal := (loadLog path source).reverse ++ machine.journal } := by
  obtain ⟨text, htext⟩ := exists_listing h
  refine (bind_eq_of_ok (load_of_ok h machine)).trans ?_
  rw [heading_of_listing htext]
  simp only [htext]
  refine print_of_unlimited _ ?_ text
  exact hlimits

/-- A program is its code on an empty stack, with its heading printed first. -/
theorem runProgram_of_ok (h : codeOf path source = .ok code) (hrest : machine.AtRest) :
    Exec.runProgram showCode path source machine =
      Exec.runCode (invoke deepestCall) code { machine with
        stack := .empty
        output := machine.output.append (heading showCode code)
        journal := (preamble showCode path source).reverse } := by
  cases showCode with
  | false =>
    refine (runSource_of_ok h machine).trans ?_
    rw [heading_false, Output.append_nil_of_unlimited hrest.limits, hrest.journal, List.append_nil]
    rfl
  | true =>
    refine (bind_eq_of_ok (printListing_of_ok h hrest.limits)).trans ?_
    refine (runSource_of_ok h _).trans ?_
    rw [hrest.journal, List.append_nil, ← List.reverse_append]
    rfl

/-- What a program does to a machine is what its text does to the robot. -/
theorem runProgram_yields (hrest : machine.AtRest) :
    machine.Yields (programOutcome showCode path source machine.robot)
      (Exec.runProgram showCode path source machine) := by
  unfold programOutcome
  cases hcode : codeOf path source with
  | error e =>
    rw [runProgram_of_error hcode]
    refine ⟨rfl, ?_, ?_, rfl, hrest.words, hrest.code, hrest.word, hrest.limits, rfl⟩
    · exact (Output.append_nil_of_unlimited hrest.limits).symm
    · change _ ++ machine.journal = _
      rw [hrest.journal, List.append_nil]
  | ok code =>
    rw [runProgram_of_ok hcode hrest]
    exact runCode_yields hrest _ _

end Programs

end Tabletop
