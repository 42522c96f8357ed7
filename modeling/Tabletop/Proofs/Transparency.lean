import Tabletop.Proofs.Isolation

/-!
# Listings are all that is added

With `--bytecode` the listing of every program is printed in front of what the program prints, and
nothing else changes: not the exit code, the reports or the robot. Only a logger notices, since it
is told of the compilation once more. A text that is no program has no listing, and what is wrong
with it is found while listing it just as it is found while running it. The comparison is made for
a program first (`programOutcome_listed`), then along the lines of the input (`lineRuns_listed`).
-/

namespace Tabletop

/-! ## Arguments -/

namespace Arguments

/-- The same with listings asked for. -/
def listing (arguments : Arguments) : Arguments := { arguments with showCode := true }

private theorem step_listing (arguments : Arguments) (argument : String) :
    arguments.listing.step argument = (arguments.step argument).map listing := by
  unfold step
  split
  · rfl
  · cases hscript : arguments.script <;> simp [listing, hscript, Except.map]

private theorem foldlM_step_listing (rest : List String) (arguments : Arguments) :
    rest.foldlM step arguments.listing = (rest.foldlM step arguments).map listing := by
  induction rest generalizing arguments with
  | nil => rfl
  | cons argument rest ih =>
    rw [List.foldlM_cons, List.foldlM_cons, step_listing]
    cases arguments.step argument with
    | error e => rfl
    | ok next => exact ih next

/-- The option can stand anywhere among the arguments. -/
theorem parse_insert (front back : List String) :
    parse (front ++ "--bytecode" :: back) = (parse (front ++ back)).map listing := by
  unfold parse
  rw [List.foldlM_append, List.foldlM_append]
  cases front.foldlM step none with
  | error e => rfl
  | ok arguments => exact foldlM_step_listing back arguments

private theorem showCode_of_step {arguments arguments' : Arguments} {argument : String}
    (hflag : argument ≠ "--bytecode") (h : arguments.step argument = .ok arguments') :
    arguments'.showCode = arguments.showCode := by
  rw [step, if_neg hflag] at h
  split at h
  · cases h; rfl
  · cases h

private theorem showCode_of_foldlM_step {rest : List String} {arguments arguments' : Arguments}
    (hflag : "--bytecode" ∉ rest) (h : rest.foldlM step arguments = .ok arguments') :
    arguments'.showCode = arguments.showCode := by
  induction rest generalizing arguments with
  | nil => cases h; rfl
  | cons argument rest ih =>
    rw [List.mem_cons, not_or] at hflag
    rw [List.foldlM_cons] at h
    cases hstep : arguments.step argument with
    | error e => rw [hstep] at h; cases h
    | ok next =>
      rw [hstep] at h
      exact (ih hflag.2 h).trans (showCode_of_step (Ne.symm hflag.1) hstep)

/-- Without the option no listings are asked for. -/
theorem showCode_of_parse {arguments : List String} {parsed : Arguments}
    (hflag : "--bytecode" ∉ arguments) (h : parse arguments = .ok parsed) :
    parsed.showCode = false :=
  showCode_of_foldlM_step hflag h

end Arguments

/-! ## One program -/

/-- What is printed with a listing, beside what is printed without, for the text of a program if
there is one. -/
inductive ListedOutput (path : String) : Option String → List UInt8 → List UInt8 → Prop
  | compiled {source listing : String} {code : Code} {plain : List UInt8} :
      codeOf path source = .ok code → Instruction.listing code = .ok listing →
      ListedOutput path (some source) plain (Text.utf8 listing ++ plain)
  | rejected {source : String} {e : Error} :
      codeOf path source = .error e → ListedOutput path (some source) [] []
  | nothing : ListedOutput path none [] []

/-- What the logger is told while a program is listed. A text that is no program is given up there,
so that it is told of nothing twice. -/
def listingLog (path : String) : Option String → List Event
  | none => []
  | some source =>
    match codeOf path source with
    | .error _ => []
    | .ok _ => loadLog path source

/-- What a program does with a listing, beside what it does without. -/
structure ListedOutcome (path : String) (program : Option String) (plain listed : Outcome) :
    Prop where
  printed : ListedOutput path program plain.printed listed.printed
  log : listed.log = listingLog path program ++ plain.log
  error : listed.error = plain.error
  robot : listed.robot = plain.robot

theorem ListedOutcome.notices {path : String} {program : Option String} {plain listed : Outcome}
    (h : ListedOutcome path program plain listed) (report : String → String) :
    listed.notices report =
      (listingLog path program).map .logged ++ plain.notices report := by
  rw [Outcome.notices, Outcome.notices, h.log, h.error, List.map_append, List.append_assoc]

/-- A listing comes first, and a program does the same after it. -/
theorem programOutcome_listed (path source : String) (robot : Robot) :
    ListedOutcome path (some source) (programOutcome false path source robot)
      (programOutcome true path source robot) := by
  unfold programOutcome
  cases hcode : codeOf path source with
  | error e => exact ⟨.rejected hcode, by simp [listingLog, hcode], rfl, rfl⟩
  | ok code =>
    obtain ⟨listing, hlisting⟩ := exists_listing hcode
    refine ⟨?_, by simp [listingLog, hcode, Outcome.behind, preamble], rfl, rfl⟩
    change ListedOutput path (some source) (codeOutcome code robot).printed
      (heading true code ++ (codeOutcome code robot).printed)
    rw [heading_of_listing hlisting]
    exact .compiled hcode hlisting

/-- On a machine at rest, a program leaves the robot where it leaves it without its listing. -/
theorem runProgram_robot {machine : Machine} (hrest : machine.AtRest) (path source : String) :
    (endState (Exec.runProgram true path source machine)).robot =
      (endState (Exec.runProgram false path source machine)).robot := by
  rw [(runProgram_yields hrest).robot, (runProgram_yields hrest).robot]
  exact (programOutcome_listed path source machine.robot).robot

/-! ## A script -/

/-- The text of a script, if it can be read. -/
def scriptText? (contents : Except String (List UInt8)) : Option String :=
  contents.toOption.bind Text.ofUtf8?

/-- What a script with this outcome comes to. -/
def Outcome.transcript (outcome : Outcome) : Transcript where
  exitCode := if outcome.error.isSome then 1 else 0
  stdout := outcome.printed
  notices := outcome.notices failureReport

section Script

variable {table : Table} {showCode : Bool} {path source : String}
  {contents : Except String (List UInt8)}

theorem runScript_of_text (h : scriptText? contents = some source) :
    runScript table showCode path contents =
      (programOutcome showCode path source (Machine.standard table).robot).transcript := by
  have hrest := Machine.standard_atRest table
  have hyields := @runProgram_yields _ path source showCode hrest
  generalize programOutcome showCode path source _ = outcome at hyields ⊢
  generalize hrun : Exec.runProgram showCode path source _ = result at hyields
  have hbytes : (endState result).output.bytes = outcome.printed := by
    rw [hyields.output, Output.bytes_append_of_unlimited hrest.limits]
    rfl
  have htold := hyields.told
  have herror := hyields.error
  cases contents with
  | error reason => simp [scriptText?, Except.toOption] at h
  | ok bytes =>
    have htext : Text.ofUtf8? bytes = some source := h
    simp only [runScript, htext, hrun, Outcome.transcript, Outcome.notices, ← hbytes, ← htold]
    cases result with
    | ok u after =>
      have hnone : outcome.error = none := Option.map_eq_none_iff.1 herror.symm
      simp [hnone, endState]
    | error stop after =>
      obtain ⟨e, he, rfl⟩ := Option.map_eq_some_iff.1 herror.symm
      rw [he]
      rfl

/-- A script that cannot be read is no program. -/
theorem runScript_of_none (h : scriptText? contents = none) :
    (∀ showCode', runScript table showCode path contents =
        runScript table showCode' path contents) ∧
      (runScript table showCode path contents).stdout = [] := by
  cases contents with
  | error reason => exact ⟨fun _ => rfl, rfl⟩
  | ok bytes =>
    have htext : Text.ofUtf8? bytes = none := h
    simp [runScript, htext, Transcript.failure]

/-- Called with a script, the command runs it. -/
theorem transcribe_of_script {arguments : List String} {settings : String → Option String}
    (harguments : Arguments.parse arguments = .ok ⟨showCode, some path⟩)
    (hsettings : Table.ofSettings settings = .ok table)
    (files : String → Except String (List UInt8)) (input : List UInt8) :
    let transcript := runScript table showCode path (files path)
    transcribe arguments settings files input = ⟨transcript.exitCode, transcript.stdout,
      .logged (.tabled table) :: transcript.notices⟩ := by
  simp only [transcribe, harguments, hsettings, runArguments]

end Script

/-- A script comes to what it comes to without its listing, except for the listing. -/
theorem runScript_listed (table : Table) (path : String) (contents : Except String (List UInt8)) :
    let plain := runScript table false path contents
    let listed := runScript table true path contents
    listed.exitCode = plain.exitCode ∧
      listed.notices = (listingLog path (scriptText? contents)).map .logged ++ plain.notices ∧
      ListedOutput path (scriptText? contents) plain.stdout listed.stdout := by
  intro plain listed
  cases htext : scriptText? contents with
  | none =>
    obtain ⟨hsame, hstdout⟩ := @runScript_of_none table true path contents htext
    have hlisted : listed = plain := hsame false
    rw [← hlisted]
    refine ⟨rfl, rfl, ?_⟩
    rw [show listed.stdout = [] from hstdout]
    exact .nothing
  | some source =>
    have hprogram := programOutcome_listed path source (Machine.standard table).robot
    have hplain : plain = _ := runScript_of_text htext
    have hlisted : listed = _ := runScript_of_text htext
    rw [hplain, hlisted]
    refine ⟨?_, hprogram.notices failureReport, hprogram.printed⟩
    rw [Outcome.transcript, Outcome.transcript, hprogram.error]

/-! ## Lines of input -/

/-- What a line does with a listing, beside what it does without. -/
structure ListedLine (path : String) (program : Option String) (plain listed : LineOutcome) :
    Prop where
  printed : ListedOutput path program plain.printed listed.printed
  notices : listed.notices = (listingLog path program).map .logged ++ plain.notices
  robot : listed.robot = plain.robot

/-- What lines do with listings, beside what they do without. -/
inductive ListedLines : Nat → List (List UInt8) → List LineOutcome → List LineOutcome → Prop
  | nil {n : Nat} : ListedLines n [] [] []
  | cons {n : Nat} {line : List UInt8} {lines : List (List UInt8)} {plain listed : LineOutcome}
      {plains listeds : List LineOutcome} :
      ListedLine (linePath n) ((Text.ofUtf8? line).bind lineProgram?) plain listed →
      ListedLines (n + 1) lines plains listeds →
      ListedLines n (line :: lines) (plain :: plains) (listed :: listeds)

private theorem lineOutcome_listed (n : Nat) (bytes : List UInt8) (robot : Robot) :
    ListedLine (linePath n) ((Text.ofUtf8? bytes).bind lineProgram?)
      (lineOutcome false n bytes robot) (lineOutcome true n bytes robot) := by
  cases hline : Text.ofUtf8? bytes with
  | none =>
    simp only [lineOutcome, hline]
    exact ⟨.nothing, rfl, rfl⟩
  | some line =>
    cases hsource : lineProgram? line with
    | none =>
      simp only [lineOutcome, hline, hsource, Option.bind_some]
      exact ⟨.nothing, rfl, rfl⟩
    | some source =>
      simp only [lineOutcome, hline, hsource, Option.bind_some]
      have hprogram := programOutcome_listed (linePath n) source robot
      exact ⟨hprogram.printed, hprogram.notices (complaint n), hprogram.robot⟩

/-- What is told in addition is no report. -/
theorem ListedLines.reports_eq {n : Nat} {lines : List (List UInt8)}
    {plains listeds : List LineOutcome} (h : ListedLines n lines plains listeds) :
    Notice.reports (listeds.flatMap LineOutcome.notices) =
      Notice.reports (plains.flatMap LineOutcome.notices) := by
  induction h with
  | nil => rfl
  | cons hline hlines ih =>
    rw [List.flatMap_cons, List.flatMap_cons, Notice.reports_append, Notice.reports_append, ih,
      hline.notices, Notice.reports_append, Notice.reports_logged, List.nil_append]

/-- Two machines at rest with the same robot, of which one lists the lines, keep the same robot. -/
theorem lineRuns_listed {plain listed : Machine} (hplain : plain.AtRest) (hlisted : listed.AtRest)
    (hrobot : listed.robot = plain.robot) (n : Nat) (noticed noticed' : List Notice)
    (lines : List (List UInt8)) :
    ListedLines n lines (lineRuns false n plain lines) (lineRuns true n listed lines) ∧
      (runLines true n noticed' listed lines).2.robot =
        (runLines false n noticed plain lines).2.robot := by
  induction lines generalizing plain listed n noticed noticed' with
  | nil => exact ⟨.nil, hrobot⟩
  | cons line lines ih =>
    obtain ⟨hrun, -, hplain'⟩ := @runLine_isolated false n line plain hplain
    obtain ⟨hrun', -, hlisted'⟩ := @runLine_isolated true n line listed hlisted
    have hline : ListedLine (linePath n) ((Text.ofUtf8? line).bind lineProgram?)
        (lineRun false n line plain) (lineRun true n line listed) := by
      rw [hrun, hrun', hrobot]
      exact lineOutcome_listed n line plain.robot
    -- The robots after the line are those of the two outcomes.
    obtain ⟨hlines, hlast⟩ := ih hplain' hlisted' hline.robot (n + 1)
      ((runLine false n line plain).1.reverseAux noticed)
      ((runLine true n line listed).1.reverseAux noticed')
    exact ⟨.cons hline hlines, hlast⟩

/-! ## The command -/

section Command

variable {front back : List String} {settings : String → Option String} {table : Table}
  {e : ConfigError} {path : String}

/-- What is wrong with the arguments is wrong with them without the option too. -/
private theorem transcribe_listed_of_error
    (hparse : Arguments.parse (front ++ back) = .error e)
    (files : String → Except String (List UInt8)) (input : List UInt8) :
    transcribe (front ++ "--bytecode" :: back) settings files input =
      transcribe (front ++ back) settings files input := by
  have hinsert := Arguments.parse_insert front back
  rw [hparse] at hinsert
  simp only [transcribe, hparse, hinsert, Except.map]

private theorem transcribe_listed_of_script
    (hparse : Arguments.parse (front ++ back) = .ok ⟨false, some path⟩)
    (hsettings : Table.ofSettings settings = .ok table)
    (files : String → Except String (List UInt8)) (input : List UInt8) :
    let plain := transcribe (front ++ back) settings files input
    let listed := transcribe (front ++ "--bytecode" :: back) settings files input
    let text := scriptText? (files path)
    listed.exitCode = plain.exitCode ∧ ListedOutput path text plain.stdout listed.stdout ∧
      ∃ notices, plain.notices = .logged (.tabled table) :: notices ∧
        listed.notices =
          .logged (.tabled table) :: ((listingLog path text).map .logged ++ notices) := by
  intro plain listed text
  have hinsert := Arguments.parse_insert front back
  rw [hparse] at hinsert
  have hplain : plain = _ := transcribe_of_script hparse hsettings files input
  have hlisted : listed = _ := transcribe_of_script hinsert hsettings files input
  obtain ⟨hexit, hnotices, hstdout⟩ := runScript_listed table path (files path)
  rw [hplain, hlisted]
  exact ⟨hexit, hstdout, _, rfl, congrArg (List.cons _) hnotices⟩

private theorem transcribe_listed_of_input
    (hparse : Arguments.parse (front ++ back) = .ok ⟨false, none⟩)
    (hsettings : Table.ofSettings settings = .ok table)
    (files : String → Except String (List UInt8)) (input : List UInt8) :
    let transcript showCode : Transcript :=
      let runs := lineRuns showCode 1 (.standard table) (splitLines input)
      ⟨0, runs.flatMap LineOutcome.printed,
        .logged (.tabled table) :: runs.flatMap LineOutcome.notices⟩
    transcribe (front ++ back) settings files input = transcript false ∧
      transcribe (front ++ "--bytecode" :: back) settings files input = transcript true := by
  have hinsert := Arguments.parse_insert front back
  rw [hparse] at hinsert
  exact ⟨transcribe_of_input hparse hsettings files input,
    transcribe_of_input hinsert hsettings files input⟩

end Command

end Tabletop
