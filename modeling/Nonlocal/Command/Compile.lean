import Nonlocal.Command.FileSystem
import Nonlocal.Command.Options
import Nonlocal.Command.Report
import Nonlocal.Model.Disclosure
import Nonlocal.Model.Text
import Nonlocal.Record.Reader
import Nonlocal.Source.Parse

/-!
# Compiling a box to a model

The command reads a box, checks it and writes the text of its model. Paths are
looked at first, then the file is read, and the output is written in a single
step at the very end; whatever fails before leaves all files alone.
-/

namespace Nonlocal.Command

/-- How an input file holds its box. -/
inductive Format where
  | source
  | record
  deriving DecidableEq, Repr

/-- The extension of sources. -/
def sourceExtension : String := "qgrady"

/-- The extension of records. -/
def recordExtension : String := "json"

/-- The extension of models. -/
def modelExtension : String := "prism"

/-- The format of an input file, which its extension says. -/
def inputFormat (file : Path) : Except Report Format :=
  match file.extension? with
  | some extension =>
    if extension = sourceExtension then .ok .source
    else if extension = recordExtension then .ok .record
    else .error unknown
  | none => .error unknown
where
  /-- The report on any other extension. -/
  unknown : Report := .plain
    s!"Input file {file.text} must have a .{sourceExtension} or .{recordExtension} extension" []

section

variable {m : Type → Type} [Monad m] [FileAccess m]

/-- Where the model goes: to the given path, or beside the input. It has to have the
extension of models and may not be a directory. -/
def outputPath (file : Path) (output : Option Path) : m (Except Report Path) := do
  let path := output.getD (file.withExtension modelExtension)
  if ← FileAccess.isDirectory path then
    pure (.error (.plain s!"Output path {path.text} is a directory" []))
  else if path.extension? ≠ some modelExtension then
    pure (.error
      (.plain s!"Output file {path.text} must have a .{modelExtension} extension" []))
  else pure (.ok path)

/-- The report on a file that cannot be read. -/
def unreadable (file : Path) (error : FileError) : Report :=
  .plain s!"Cannot read input file {file.text}" [error.message]

/-- A source text and its bytes. -/
structure SourceText where
  bytes : ByteArray
  text : String

/-- Reads an input file of limited size, which has to be UTF-8 text. -/
def readSource (file : Path) (limit : Nat) : m (Except Report SourceText) := do
  match ← FileAccess.size file with
  | .error error => pure (.error (unreadable file error))
  | .ok size =>
    if limit < size then
      pure (.error (.plain
        (s!"Input file {file.text} is {size} bytes, " ++
          s!"exceeding the limit of {limit} bytes") []))
    else
      match ← FileAccess.read file with
      | .error error => pure (.error (unreadable file error))
      | .ok bytes =>
        match String.fromUTF8? bytes with
        | some text => pure (.ok ⟨bytes, text⟩)
        | none => pure (.error (unreadable file .invalidText))

end

/-- A box, with the program it comes from if it was read from a source. -/
structure Loaded where
  box : Box Float
  program : Option Source.Program

/-- Reads a box. -/
def load (text : String) (file : Path) : Format → Except Report Loaded
  | .source =>
    match Source.parse text.toList with
    | .ok program => .ok ⟨program.toBox, some program⟩
    | .error error => .error (.ofDiagnostic error.diagnostic)
  | .record =>
    match Record.read text.toList with
    | .ok box => .ok ⟨box, none⟩
    | .error _ => .error (.plain s!"Invalid box record in {file.text}" [])

/-- The report on a violation; one in a source points into it. -/
def Loaded.report (loaded : Loaded) (violation : Violation Float) : Report :=
  match loaded.program with
  | some program => .ofDiagnostic (violation.sourceDiagnostic program)
  | none => .ofDiagnostic violation.diagnostic

/-- What has been logged, and the result or the end of the work. -/
structure Work (α : Type) where
  log : List LogEntry
  result : Attempt Report α

/-- The log entry for a check that passes. -/
def passedEntry (check : Check) : LogEntry := ⟨.info, s!"{check.name} check passed", []⟩

/-- Checks a box and logs each check that passes. -/
def checkBox (loaded : Loaded) (tolerance : Float) : Work Unit :=
  let examination := Validity.examine loaded.box tolerance Check.all
  ⟨examination.passed.map passedEntry, examination.verdict.mapRefusal loaded.report⟩

/-- The log entry for the commands of one family. -/
def familyEntry (model : Model Float) (name : String) (family : Family) : LogEntry :=
  let count := (model.module? Identifier.outputModule).map (·.familyCount family)
  ⟨.debug, s!"{name} commands generated", [("count", toString (count.getD 0))]⟩

/-- The log entries for a model. -/
def modelLog (model : Model Float) : List LogEntry :=
  [familyEntry model "input-sync" .inputSync,
    familyEntry model "reduced-probability" .reduced,
    familyEntry model "normalised-probability" .normalised,
    ⟨.info, "automaton generated",
      [("modules", toString model.modules.length),
        ("commands", toString model.commandCount)]⟩]

/-- The model of a box as it is written, with its provenance in front if it is given. -/
def modelText (provenance : Option Provenance) (model : Model Float) : String :=
  (provenance.map Provenance.header).getD "" ++ model.text

/-- The report on a box of which no model is made. -/
def noModel (error : ModelError) : Report := .plain "Model generation failed" [error.message]

/-- Makes the text of the model of a box. -/
def generate (box : Box Float) (provenance : Option Provenance) : Work String :=
  match (Disclosure.model box).mapRefusal noModel with
  | .error stop => ⟨[], .error stop⟩
  | .ok model => ⟨modelLog model, .ok (modelText provenance model)⟩

/-- The work between reading and writing: a checked box and, unless only the checks are
asked for, the text of its model. -/
def process (options : Options) (format : Format) (source : SourceText) :
    Work (Option String) :=
  match load source.text options.file format with
  | .error report => ⟨[], Attempt.refuse report⟩
  | .ok loaded =>
    let opening : LogEntry := ⟨.info, "box loaded",
      [("file", options.file.text), ("parties", toString loaded.box.partyCount)]⟩
    let checked := checkBox loaded options.tolerance
    match checked.result with
    | .error stop => ⟨opening :: checked.log, .error stop⟩
    | .ok () =>
      if options.checkOnly then ⟨opening :: checked.log, .ok none⟩
      else
        let provenance :=
          if options.provenance then some (Provenance.ofSource source.bytes.toList) else none
        let generated := generate loaded.box provenance
        ⟨opening :: checked.log ++ generated.log, generated.result.map some⟩

/-- How the command ends: what it has logged, and what it prints or why it fails. -/
structure Ending where
  log : List LogEntry
  result : Attempt Report String

section

variable {m : Type → Type} [Monad m] [FileAccess m]

/-- Writes the text of a model and says so. -/
def deliver (path : Path) (text : String) : m (Attempt Report String) := do
  match ← FileAccess.write path text with
  | .ok () => pure (.ok s!"PRISM model written to {path.text}\n")
  | .error error =>
    pure (Attempt.refuse (.plain s!"Cannot write {path.text}" [error.message]))

/-- Where the model goes, if one is asked for. -/
def requestedPath (options : Options) : m (Except Report (Option Path)) := do
  if options.checkOnly then pure (.ok none)
  else
    let path ← outputPath options.file options.output
    pure (path.map some)

/-- Runs the command. -/
def compile (options : Options) : m Ending := do
  match inputFormat options.file with
  | .error report => pure ⟨[], Attempt.refuse report⟩
  | .ok format =>
    match ← requestedPath options with
    | .error report => pure ⟨[], Attempt.refuse report⟩
    | .ok path =>
      match ← readSource options.file options.maxInputBytes with
      | .error report => pure ⟨[], Attempt.refuse report⟩
      | .ok source =>
        let work := process options format source
        match work.result, path with
        | .error stop, _ => pure ⟨work.log, .error stop⟩
        | .ok (some text), some path =>
          let result ← deliver path text
          pure ⟨work.log, result⟩
        | .ok _, _ => pure ⟨work.log, .ok s!"{options.file.text}: box is valid\n"⟩

end

end Nonlocal.Command
