import Nonlocal.Diagnostic
import Nonlocal.Text.Lines

/-!
# Reports and log entries

A report is a diagnostic with the causes below its message. Log entries say how
far the command has come.
-/

namespace Nonlocal.Command

/-- A failure of the command. -/
structure Report where
  diagnostic : Diagnostic
  causes : List String
  deriving DecidableEq, Repr

namespace Report

/-- A report that is a message with causes. -/
def plain (message : String) (causes : List String) : Report :=
  ⟨⟨message, none, none, []⟩, causes⟩

/-- A report of a diagnostic. -/
def ofDiagnostic (diagnostic : Diagnostic) : Report := ⟨diagnostic, []⟩

/-- The message and the causes below it. -/
def chain (report : Report) : List String := report.diagnostic.message :: report.causes

/-- A label in words. -/
def labelLine (label : Label) : String :=
  s!"  at bytes {label.span.start} to {label.span.stop}: {label.remark}"

/-- The report as it is shown. -/
def lines (report : Report) : List String :=
  ("Error: " ++ report.diagnostic.message)
    :: report.causes.map ("  caused by: " ++ ·)
    ++ report.diagnostic.labels.map labelLine
    ++ report.diagnostic.help.toList.map ("  help: " ++ ·)
    ++ report.diagnostic.code.toList.map ("  code: " ++ ·)

end Report

/-- How much a log entry matters. -/
inductive Level where
  | info
  | debug
  deriving DecidableEq, Repr

/-- The word for a level. -/
def Level.name : Level → String
  | .info => "INFO"
  | .debug => "DEBUG"

/-- Which entries are shown. -/
inductive Verbosity where
  | off
  | info
  | debug
  deriving DecidableEq, Repr

/-- Whether entries of a level are shown. -/
def Verbosity.shows : Verbosity → Level → Bool
  | .off, _ => false
  | .info, level => level = .info
  | .debug, _ => true

/-- A log entry with named values. -/
structure LogEntry where
  level : Level
  message : String
  fields : List (String × String)
  deriving DecidableEq, Repr

/-- The text of a log entry. -/
def LogEntry.text (entry : LogEntry) : String :=
  " ".intercalate (entry.level.name :: entry.message ::
    entry.fields.map fun (name, value) => name ++ "=" ++ value)

/-- A log entry as it is shown. A value may hold line feeds; what follows one stands on a
line of its own, without the white space in front of it. -/
def LogEntry.lines (entry : LogEntry) : List String :=
  (Text.lines entry.text.toList).map fun line => String.ofList (line.dropWhile Text.isWhite)

end Nonlocal.Command
