import Tabletop.Journal

/-!
# Loggers

The command tells a logger what happens, in between its own reports. Both go to the error output.
What the logger writes there is its own affair: whether it has something to say about the settings,
which events it shows, and what it puts in front of them, such as the time. So the logger is given
from outside, by the way in which settings make one.
-/

namespace Tabletop

/-- What goes to the error output: an event that the logger is told, or a text. -/
inductive Notice where
  | logged (event : Event)
  | reported (text : String)

/-- A logger that has been set up. -/
structure Logger where
  /-- What it writes when it is set up. -/
  opening : String
  /-- What it writes when it is told of an event after `n` others. This may be nothing. -/
  line (n : Nat) (event : Event) : String

/-- How the settings make a logger. -/
abbrev Logging := (String → Option String) → Logger

namespace Logger

/-- The error output for these notices, where the logger has been told of `n` events before. -/
def write (logger : Logger) (n : Nat) : List Notice → String
  | [] => ""
  | .logged event :: notices => logger.line n event ++ logger.write (n + 1) notices
  | .reported text :: notices => text ++ logger.write n notices

/-- The whole error output. -/
def text (logger : Logger) (notices : List Notice) : String :=
  logger.opening ++ logger.write 0 notices

/-- The logger writes nothing at all. -/
structure Silent (logger : Logger) : Prop where
  opening : logger.opening = ""
  line : ∀ n event, logger.line n event = ""

/-- The logger that is used where none is asked for. -/
def silent : Logger := ⟨"", fun _ _ => ""⟩

/-- A logger that shows the events of a level, each behind a header. -/
def showing (level : Level) (header : Nat → Event → String) : Logger where
  opening := ""
  line n event :=
    if event.level.isShownAt level then "[" ++ header n event ++ "] " ++ event.message ++ "\n"
    else ""

end Logger

/-- The logging that goes by the setting of this name. It shows the events of a level if the setting
is `target=level`, and warns if there is no such level. Other settings are not meant for it, and
without one it shows nothing. -/
def Logging.named (setting target : String) (header : Nat → Event → String) : Logging :=
  fun settings =>
    match settings setting with
    | none => .silent
    | some spec =>
      match (target ++ "=").toList.isPrefixOf? spec.toList with
      | none => .silent
      | some name =>
        match Level.ofName? (String.ofList name) with
        | some level => .showing level header
        | none =>
          let complaint := "invalid logging spec '" ++ String.ofList name ++ "'"
          { Logger.silent with opening := "warning: " ++ complaint ++ ", ignoring it\n" }

/-! ## Reports -/

/-- The texts among the notices. -/
def Notice.reports (notices : List Notice) : List String :=
  notices.filterMap fun
    | logged _ => none
    | reported text => some text

@[simp] theorem Notice.reports_append (notices notices' : List Notice) :
    reports (notices ++ notices') = reports notices ++ reports notices' :=
  List.filterMap_append

theorem Notice.reports_flatMap {α : Type} (items : List α) (notices : α → List Notice) :
    reports (items.flatMap notices) = items.flatMap fun item => reports (notices item) :=
  List.filterMap_flatMap

@[simp] theorem Notice.reports_logged (events : List Event) : reports (events.map logged) = [] := by
  simp [reports]

namespace Logger

theorem silent_silent : silent.Silent := ⟨rfl, fun _ _ => rfl⟩

variable {logger : Logger}

theorem Silent.write_eq (h : logger.Silent) (n : Nat) (notices : List Notice) :
    logger.write n notices = String.join (Notice.reports notices) := by
  induction notices generalizing n with
  | nil => rfl
  | cons notice notices ih =>
    cases notice with
    | logged event =>
      rw [write, h.line, ih, String.empty_append]
      rfl
    | reported text =>
      rw [write, ih, ← String.join_cons]
      rfl

/-- A silent logger leaves the reports alone. -/
theorem Silent.text_eq (h : logger.Silent) (notices : List Notice) :
    logger.text notices = String.join (Notice.reports notices) := by
  rw [text, h.opening, h.write_eq, String.empty_append]

end Logger

end Tabletop
