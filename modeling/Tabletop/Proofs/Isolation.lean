import Tabletop.Proofs.Programs

/-!
# Lines of input are programs of their own

The lines of the input are run by one machine, one after the other. Every line starts on an empty
stack with the machine at rest, so what it prints, the complaint about it and where it leaves the
robot depend on its bytes, its number and the robot only (`runLine_isolated`), and not on what the
lines before it were or how they ended.
-/

namespace Tabletop

/-! ## One line -/

/-- What goes to the error output for a program with this outcome, with its error in a report. -/
def Outcome.notices (outcome : Outcome) (report : String → String) : List Notice :=
  outcome.log.map .logged ++ (outcome.error.map fun e => .reported (report e.message)).toList

/-- What outlives a line of the input: what is printed for it, what goes to the error output, and
the robot. -/
structure LineOutcome where
  printed : List UInt8
  notices : List Notice
  robot : Robot

/-- What the `n`th line does to the robot. -/
def lineOutcome (showCode : Bool) (n : Nat) (bytes : List UInt8) (robot : Robot) : LineOutcome :=
  match Text.ofUtf8? bytes with
  | none => ⟨[], [.reported (complaint n "line is not valid UTF-8")], robot⟩
  | some line =>
    match lineProgram? line with
    | none => ⟨[], [], robot⟩
    | some source =>
      let outcome := programOutcome showCode (linePath n) source robot
      ⟨outcome.printed, outcome.notices (complaint n), outcome.robot⟩

/-- What the `n`th line does to a machine: what the machine prints for it, what goes to the error
output, and the robot afterwards. -/
def lineRun (showCode : Bool) (n : Nat) (bytes : List UInt8) (machine : Machine) : LineOutcome where
  printed := (runLine showCode n bytes machine).2.output.since machine.output
  notices := (runLine showCode n bytes machine).1
  robot := (runLine showCode n bytes machine).2.robot

section Line

variable {showCode : Bool} {n : Nat} {bytes : List UInt8} {line source : String}
  {machine : Machine} {outcome : Outcome} {result : EStateM.Result Stop Machine Unit}

theorem Machine.Yields.told (h : machine.Yields outcome result) :
    (endState result).told = outcome.log.map .logged := by
  rw [Machine.told, h.log, List.reverse_reverse]

private theorem runLine_of_program (hline : Text.ofUtf8? bytes = some line)
    (hsource : lineProgram? line = some source)
    (hyields : machine.Yields outcome (Exec.runProgram showCode (linePath n) source machine)) :
    runLine showCode n bytes machine = (outcome.notices (complaint n),
      (endState (Exec.runProgram showCode (linePath n) source machine)).turnPage) := by
  have htold := hyields.told
  have herror := hyields.error
  simp only [runLine, hline, hsource, Outcome.notices]
  cases hrun : Exec.runProgram showCode (linePath n) source machine with
  | ok u after =>
    rw [hrun] at htold herror
    have hnone : outcome.error = none := Option.map_eq_none_iff.1 herror.symm
    rw [hnone, ← htold]
    simp [endState]
  | error stop after =>
    rw [hrun] at htold herror
    obtain ⟨e, he, rfl⟩ := Option.map_eq_some_iff.1 herror.symm
    rw [he, ← htold]
    rfl

/-- A line does to a machine at rest what it does to the robot, and leaves the machine at rest. -/
theorem runLine_isolated (hrest : machine.AtRest) :
    lineRun showCode n bytes machine = lineOutcome showCode n bytes machine.robot ∧
      (runLine showCode n bytes machine).2.output =
        machine.output.append (lineOutcome showCode n bytes machine.robot).printed ∧
      (runLine showCode n bytes machine).2.AtRest := by
  have hnothing := Output.append_nil_of_unlimited hrest.limits
  cases hline : Text.ofUtf8? bytes with
  | none => simp [lineRun, lineOutcome, runLine, hline, hrest, hnothing]
  | some line =>
    cases hsource : lineProgram? line with
    | none => simp [lineRun, lineOutcome, runLine, hline, hsource, hrest, hnothing]
    | some source =>
      have hyields := @runProgram_yields machine (linePath n) source showCode hrest
      have hprinted : (endState (Exec.runProgram showCode (linePath n) source machine)).output.since
          machine.output = (programOutcome showCode (linePath n) source machine.robot).printed := by
        rw [hyields.output, Output.since_append_of_unlimited hrest.limits]
      simp only [lineRun, lineOutcome, hline, hsource, runLine_of_program hline hsource hyields]
      refine ⟨?_, hyields.output, hyields.atRest⟩
      rw [← hprinted, ← hyields.robot]
      rfl

end Line

/-! ## All lines -/

/-- What the lines from the `n`th on do, each to the machine that the lines before it leave. -/
def lineRuns (showCode : Bool) (n : Nat) (machine : Machine) :
    List (List UInt8) → List LineOutcome
  | [] => []
  | line :: lines => lineRun showCode n line machine ::
    lineRuns showCode (n + 1) (runLine showCode n line machine).2 lines

/-- The machine that lines leave. -/
def afterLines (showCode : Bool) (table : Table) (lines : List (List UInt8)) : Machine :=
  (runLines showCode 1 [] (.standard table) lines).2

section Lines

variable {showCode : Bool} {n : Nat} {noticed : List Notice} {machine : Machine}
  {lines : List (List UInt8)}

private theorem length_lineRuns : (lineRuns showCode n machine lines).length = lines.length := by
  induction lines generalizing n machine with
  | nil => rfl
  | cons line lines ih => exact congrArg (· + 1) ih

/-- Every line runs on the machine that the lines before it leave. -/
theorem getElem?_lineRuns {k : Nat} {line : List UInt8} (h : lines[k]? = some line) :
    (lineRuns showCode n machine lines)[k]? = some (lineRun showCode (n + k) line
      (runLines showCode n noticed machine (lines.take k)).2) := by
  induction k generalizing n noticed machine lines with
  | zero =>
    obtain ⟨lines, rfl⟩ : ∃ rest, lines = line :: rest := by
      cases lines with
      | nil => cases h
      | cons first rest => exact ⟨rest, by rw [Option.some.inj h]⟩
    rfl
  | succ k ih =>
    cases lines with
    | nil => cases h
    | cons first rest =>
      rw [lineRuns, List.getElem?_cons_succ, List.take_succ_cons, runLines,
        ih (List.getElem?_cons_succ ▸ h), Nat.add_right_comm, Nat.add_assoc]

/-- What goes to the error output goes there line by line. -/
theorem runLines_notices :
    (runLines showCode n noticed machine lines).1 =
      noticed.reverse ++ (lineRuns showCode n machine lines).flatMap LineOutcome.notices := by
  induction lines generalizing n noticed machine with
  | nil => simp [runLines, lineRuns]
  | cons line lines ih =>
    rw [runLines, lineRuns, ih, List.flatMap_cons, List.reverseAux_eq, List.reverse_append,
      List.reverse_reverse, List.append_assoc]
    rfl

/-- The output is that of the lines, in their order. -/
theorem runLines_output (hrest : machine.AtRest) :
    (runLines showCode n noticed machine lines).2.output.bytes =
        machine.output.bytes ++ (lineRuns showCode n machine lines).flatMap LineOutcome.printed ∧
      (runLines showCode n noticed machine lines).2.AtRest := by
  induction lines generalizing n noticed machine with
  | nil => simp [runLines, lineRuns, hrest]
  | cons line lines ih =>
    obtain ⟨hrun, houtput, hrest'⟩ := @runLine_isolated showCode n line machine hrest
    obtain ⟨hbytes, hlast⟩ := @ih (n + 1)
      ((runLine showCode n line machine).1.reverseAux noticed) _ hrest'
    refine ⟨?_, hlast⟩
    rw [runLines, hbytes, houtput, Output.bytes_append_of_unlimited hrest.limits, lineRuns,
      List.flatMap_cons, hrun, List.append_assoc]

private theorem afterLines_atRest (showCode : Bool) (table : Table) (lines : List (List UInt8)) :
    (afterLines showCode table lines).AtRest :=
  (runLines_output (Machine.standard_atRest table)).2

/-- What the input comes to is put together from what its lines do. -/
theorem runInput_eq (table : Table) (showCode : Bool) (input : List UInt8) :
    let runs := lineRuns showCode 1 (.standard table) (splitLines input)
    runInput table showCode input =
      ⟨0, runs.flatMap LineOutcome.printed, runs.flatMap LineOutcome.notices⟩ := by
  intro runs
  have hbytes := (@runLines_output showCode 1 [] _ (splitLines input)
    (Machine.standard_atRest table)).1
  have hinput : runInput table showCode input =
      ⟨0, (runLines showCode 1 [] (.standard table) (splitLines input)).2.output.bytes,
        (runLines showCode 1 [] (.standard table) (splitLines input)).1⟩ := rfl
  rw [hinput, runLines_notices, hbytes]
  rfl

/-- Called without a script, the command runs the input. -/
theorem transcribe_of_input {arguments : List String} {settings : String → Option String}
    {table : Table} (harguments : Arguments.parse arguments = .ok ⟨showCode, none⟩)
    (hsettings : Table.ofSettings settings = .ok table)
    (files : String → Except String (List UInt8)) (input : List UInt8) :
    let runs := lineRuns showCode 1 (.standard table) (splitLines input)
    transcribe arguments settings files input = ⟨0, runs.flatMap LineOutcome.printed,
      .logged (.tabled table) :: runs.flatMap LineOutcome.notices⟩ := by
  simp only [transcribe, harguments, hsettings, runArguments, runInput_eq]

end Lines

/-! ## From bytes to lines -/

private theorem splitLines_nil : splitLines [] = [] := rfl

private theorem splitLines_cons (byte : UInt8) (bytes : List UInt8) :
    splitLines (byte :: bytes) = consByte byte (splitLines bytes) := rfl

/-- A newline ends a line. -/
theorem splitLines_append {line : List UInt8} (h : 10 ∉ line) (rest : List UInt8) :
    splitLines (line ++ 10 :: rest) = line :: splitLines rest := by
  induction line with
  | nil => rfl
  | cons byte line ih =>
    rw [List.mem_cons, not_or] at h
    rw [List.cons_append, splitLines_cons, ih h.2, consByte, if_neg (Ne.symm h.1)]

/-- What follows the last newline is a line of its own if it is not empty. -/
theorem splitLines_last {line : List UInt8} (h : 10 ∉ line) (hne : line ≠ []) :
    splitLines line = [line] := by
  induction line with
  | nil => exact absurd rfl hne
  | cons byte line ih =>
    rw [List.mem_cons, not_or] at h
    rw [splitLines_cons]
    cases line with
    | nil => rw [splitLines_nil, consByte, if_neg (Ne.symm h.1)]
    | cons next line => rw [ih h.2 (by simp), consByte, if_neg (Ne.symm h.1)]

private theorem splitLines_flatMap {lines : List (List UInt8)} (h : ∀ line ∈ lines, 10 ∉ line)
    (rest : List UInt8) :
    splitLines (lines.flatMap (· ++ [10]) ++ rest) = lines ++ splitLines rest := by
  induction lines with
  | nil => rfl
  | cons line lines ih =>
    obtain ⟨hline, hlines⟩ := List.forall_mem_cons.1 h
    rw [List.flatMap_cons, List.append_assoc, List.append_assoc, List.singleton_append,
      splitLines_append hline, ih hlines, List.cons_append]

end Tabletop
