import Nonlocal.Command.Compile
import Nonlocal.Proofs.Attempt
import Nonlocal.Proofs.Command.FileSystem

/-!
# Compiling touches nothing but its output

The command asks for files and keeps them until everything but the writing is done. Each
way to fail before that is a stage here, told by what the functions of the command say and
not by the command itself. A stage that fails, or a request for the checks alone, leaves all
files as they are. What is written otherwise is one file, at the output path, and it is the
text of the whole model. The output path has an extension that no input has, so the input
keeps its bytes whatever way both paths are written.
-/

namespace Nonlocal.Command

section Keeping

variable {β γ : Type}

/-- Files are asked for, but not changed. -/
def Keeps (action : StateM FileSystem β) : Prop := ∀ files, (action.run files).2 = files

/-- A value needs no files. -/
theorem Keeps.pure (value : β) : Keeps (Pure.pure value) := fun _ => rfl

/-- Two steps that keep the files keep them together. -/
theorem Keeps.bind {action : StateM FileSystem β} {next : β → StateM FileSystem γ}
    (keeps : Keeps action) (keeps' : ∀ value, Keeps (next value)) : Keeps (action >>= next) := by
  intro files
  exact (keeps' _ _).trans (keeps files)

/-- Looking for a directory keeps the files. -/
theorem keeps_isDirectory (path : Path) :
    Keeps (FileAccess.isDirectory path : StateM FileSystem Bool) := fun _ => rfl

/-- Asking for a size keeps the files. -/
theorem keeps_size (path : Path) :
    Keeps (FileAccess.size path : StateM FileSystem (Except FileError Nat)) := fun _ => rfl

/-- Reading keeps the files. -/
theorem keeps_read (path : Path) :
    Keeps (FileAccess.read path : StateM FileSystem (Except FileError ByteArray)) := fun _ => rfl

/-- Looking for the output path keeps the files. -/
theorem keeps_outputPath (file : Path) (output : Option Path) :
    Keeps (outputPath file output : StateM FileSystem (Except Report Path)) := by
  refine .bind (keeps_isDirectory _) fun isDirectory => ?_
  split
  · exact .pure _
  · split
    · exact .pure _
    · exact .pure _

/-- Reading the source keeps the files. -/
theorem keeps_readSource (file : Path) (limit : Nat) :
    Keeps (readSource file limit : StateM FileSystem (Except Report SourceText)) := by
  refine .bind (keeps_size _) fun measured => ?_
  split
  · exact .pure _
  · split
    · exact .pure _
    · refine .bind (keeps_read _) fun content => ?_
      split
      · exact .pure _
      · split
        · exact .pure _
        · exact .pure _

/-- After a step that keeps the files, the next one finds them as they were. -/
theorem Keeps.run_bind {action : StateM FileSystem β} (keeps : Keeps action)
    (next : β → StateM FileSystem γ) (files : FileSystem) :
    (action >>= next).run files = (next (action.run files).1).run files := by
  change (next (action.run files).1).run (action.run files).2 = _
  rw [keeps files]

end Keeping

section Stages

/-- The output path, as it is found among the files. -/
def outputAmong (files : FileSystem) (options : Options) : Except Report Path :=
  ((outputPath options.file options.output : StateM FileSystem _).run files).1

/-- The source, as it is found among the files. -/
def sourceAmong (files : FileSystem) (options : Options) : Except Report SourceText :=
  ((readSource options.file options.maxInputBytes : StateM FileSystem _).run files).1

/-- The stages before anything is written. -/
inductive Stage where
  | inputExtension
  | outputPath
  | sizeLimit
  | reading
  | loading
  | check
  | generation
  deriving DecidableEq, Repr

variable (files : FileSystem) (options : Options)

/-- The input has a format, and the output path is in order if a model is asked for. -/
structure Located (format : Format) : Prop where
  recognised : inputFormat options.file = .ok format
  resolved : options.checkOnly = false → ∃ path, outputAmong files options = .ok path

/-- The source is read and holds a box. -/
structure Loads (source : SourceText) (loaded : Loaded) : Prop where
  read : sourceAmong files options = .ok source
  parsed : ∃ format, Located files options format
    ∧ load source.text options.file format = .ok loaded

/-- The box is read and passes all checks. -/
structure Accepts (source : SourceText) (loaded : Loaded) : Prop
    extends Loads files options source loaded where
  valid : Validity.validate loaded.box options.tolerance = .ok ()

/-- The stage that fails, all earlier ones having succeeded, and how the command stops. -/
inductive FailsAt : Stage → Stop Report → Prop where
  | inputExtension {report : Report} (refused : inputFormat options.file = .error report) :
      FailsAt .inputExtension (.refused report)
  | outputPath {format : Format} {report : Report}
      (recognised : inputFormat options.file = .ok format) (asked : options.checkOnly = false)
      (refused : outputAmong files options = .error report) :
      FailsAt .outputPath (.refused report)
  | sizeLimit {format : Format} {size : Nat} {report : Report}
      (located : Located files options format) (measured : files.size options.file = .ok size)
      (large : options.maxInputBytes < size) (refused : sourceAmong files options = .error report) :
      FailsAt .sizeLimit (.refused report)
  | reading {format : Format} {report : Report} (located : Located files options format)
      (small : ∀ size, files.size options.file = .ok size → size ≤ options.maxInputBytes)
      (refused : sourceAmong files options = .error report) : FailsAt .reading (.refused report)
  | loading {format : Format} {source : SourceText} {report : Report}
      (located : Located files options format) (read : sourceAmong files options = .ok source)
      (refused : load source.text options.file format = .error report) :
      FailsAt .loading (.refused report)
  | check {source : SourceText} {loaded : Loaded} {stop : Stop Report}
      (loads : Loads files options source loaded)
      (refused : (Validity.validate loaded.box options.tolerance).mapRefusal loaded.report
        = .error stop) : FailsAt .check stop
  | generation {source : SourceText} {loaded : Loaded} {stop : Stop Report}
      (accepts : Accepts files options source loaded) (asked : options.checkOnly = false)
      (refused : (Disclosure.model loaded.box).mapRefusal noModel = .error stop) :
      FailsAt .generation stop

/-- All is ready to be written: the output path, and the text of the model of the box that was
read, with the provenance of the bytes that were read in front if it is asked for. -/
structure Prepares (path : Path) (text : String) : Prop where
  asked : options.checkOnly = false
  resolved : outputAmong files options = .ok path
  made : ∃ source loaded model, Accepts files options source loaded
    ∧ Disclosure.model loaded.box = .ok model
    ∧ text = (if options.provenance then (Provenance.ofSource source.bytes.toList).header else "")
        ++ model.text

end Stages

section Running

variable {files : FileSystem} {options : Options}

/-- The output path is looked for only if a model is asked for. -/
theorem keeps_requestedPath (options : Options) :
    Keeps (requestedPath options : StateM FileSystem (Except Report (Option Path))) := by
  unfold requestedPath
  split
  · exact .pure _
  · exact .bind (keeps_outputPath _ _) fun _ => .pure _

/-- What is found for the output path, if a model is asked for. -/
theorem run_requestedPath (files : FileSystem) (options : Options) :
    ((requestedPath options : StateM FileSystem _).run files).1
      = if options.checkOnly then .ok none else (outputAmong files options).map some := by
  unfold requestedPath
  split
  · rfl
  · rw [(keeps_outputPath _ _).run_bind]
    rfl

/-- A located input comes with the path that is asked for. -/
theorem Located.requested {format : Format} (located : Located files options format) :
    ∃ path, ((requestedPath options : StateM FileSystem _).run files).1 = .ok path := by
  rw [run_requestedPath]
  split
  · exact ⟨none, rfl⟩
  · next asked =>
    obtain ⟨path, resolved⟩ := located.resolved (by simpa using asked)
    exact ⟨some path, by rw [resolved]; rfl⟩

/-- An input without a format ends the command. -/
theorem run_of_unrecognised {report : Report} (refused : inputFormat options.file = .error report) :
    (compile options : StateM FileSystem Ending).run files
      = (⟨[], .error (.refused report)⟩, files) := by
  unfold compile
  rw [refused]
  rfl

/-- A path that is not in order ends the command. -/
theorem run_of_unresolved {format : Format} {report : Report}
    (recognised : inputFormat options.file = .ok format)
    (refused : ((requestedPath options : StateM FileSystem _).run files).1 = .error report) :
    (compile options : StateM FileSystem Ending).run files
      = (⟨[], .error (.refused report)⟩, files) := by
  unfold compile
  rw [recognised]
  simp only
  rw [(keeps_requestedPath options).run_bind, refused]
  rfl

/-- A source that is not read ends the command. -/
theorem run_of_unread {format : Format} {report : Report}
    (located : Located files options format)
    (refused : sourceAmong files options = .error report) :
    (compile options : StateM FileSystem Ending).run files
      = (⟨[], .error (.refused report)⟩, files) := by
  obtain ⟨path, requested⟩ := located.requested
  unfold compile
  rw [located.recognised]
  simp only
  rw [(keeps_requestedPath options).run_bind, requested]
  simp only
  rw [(keeps_readSource _ _).run_bind, ← sourceAmong, refused]
  rfl

/-- How the command ends when the source has been worked on. -/
def finish (options : Options) (work : Work (Option String)) (path : Option Path) :
    StateM FileSystem Ending :=
  match work.result, path with
  | .error stop, _ => pure ⟨work.log, .error stop⟩
  | .ok (some text), some path => do
    let result ← deliver path text
    pure ⟨work.log, result⟩
  | .ok _, _ => pure ⟨work.log, .ok s!"{options.file.text}: box is valid\n"⟩

/-- Once the source is read, the command works on it and ends accordingly. -/
theorem run_of_read {format : Format} {source : SourceText} {path : Option Path}
    (located : Located files options format)
    (requested : ((requestedPath options : StateM FileSystem _).run files).1 = .ok path)
    (read : sourceAmong files options = .ok source) :
    (compile options : StateM FileSystem Ending).run files
      = (finish options (process options format source) path).run files := by
  unfold compile
  rw [located.recognised]
  simp only
  rw [(keeps_requestedPath options).run_bind, requested]
  simp only
  rw [(keeps_readSource _ _).run_bind, ← sourceAmong, read]
  rfl

/-- Work that stops ends the command before anything is delivered. -/
theorem run_of_stopped {format : Format} {source : SourceText} {stop : Stop Report}
    (located : Located files options format) (read : sourceAmong files options = .ok source)
    (stops : (process options format source).result = .error stop) :
    (compile options : StateM FileSystem Ending).run files
      = (⟨(process options format source).log, .error stop⟩, files) := by
  obtain ⟨path, requested⟩ := located.requested
  rw [run_of_read located requested read]
  unfold finish
  rw [stops]
  rfl

end Running

section Processing

variable {options : Options} {format : Format} {source : SourceText} {loaded : Loaded}

/-- A box has passed its checks exactly if it is valid. -/
theorem checkBox_result (loaded : Loaded) (tolerance : Float) :
    (checkBox loaded tolerance).result
      = (Validity.validate loaded.box tolerance).mapRefusal loaded.report := by
  simp only [checkBox, Validity.verdict_examine]
  rfl

/-- A source that holds no box stops the work. -/
theorem process_of_unparsed {report : Report}
    (refused : load source.text options.file format = .error report) :
    (process options format source).result = .error (.refused report) := by
  simp only [process, refused]
  rfl

/-- A check that fails stops the work. -/
theorem process_of_invalid {stop : Stop Report}
    (parsed : load source.text options.file format = .ok loaded)
    (refused : (Validity.validate loaded.box options.tolerance).mapRefusal loaded.report
      = .error stop) : (process options format source).result = .error stop := by
  simp only [process, parsed, checkBox_result, refused]

/-- A valid box is all that is asked for if no model is. -/
theorem process_of_checkOnly (parsed : load source.text options.file format = .ok loaded)
    (valid : Validity.validate loaded.box options.tolerance = .ok ())
    (checkOnly : options.checkOnly = true) :
    (process options format source).result = .ok none := by
  simp [process, parsed, checkBox_result, valid, Attempt.mapRefusal, checkOnly]

/-- A model that is not made stops the work. -/
theorem process_of_unmade {stop : Stop Report}
    (parsed : load source.text options.file format = .ok loaded)
    (valid : Validity.validate loaded.box options.tolerance = .ok ())
    (asked : options.checkOnly = false)
    (refused : (Disclosure.model loaded.box).mapRefusal noModel = .error stop) :
    (process options format source).result = .error stop := by
  have passed : (checkBox loaded options.tolerance).result = .ok () := by
    rw [checkBox_result, valid]
    rfl
  simp only [process, parsed, passed, asked, generate, refused]
  rfl

/-- The text of a model that is made follows its provenance, if that is asked for. -/
theorem process_of_made {model : Model Float}
    (parsed : load source.text options.file format = .ok loaded)
    (valid : Validity.validate loaded.box options.tolerance = .ok ())
    (asked : options.checkOnly = false) (made : Disclosure.model loaded.box = .ok model) :
    (process options format source).result
      = .ok (some ((if options.provenance then
          (Provenance.ofSource source.bytes.toList).header else "") ++ model.text)) := by
  have passed : (checkBox loaded options.tolerance).result = .ok () := by
    rw [checkBox_result, valid]
    rfl
  have generated : (Disclosure.model loaded.box).mapRefusal noModel = .ok model := by
    rw [made]
    rfl
  simp only [process, parsed, passed, asked, generate, generated]
  cases options.provenance <;> rfl

end Processing

section Courses

variable {files : FileSystem} {options : Options}

/-- A stage that fails ends the command, and all files are as they were. -/
theorem FailsAt.run {stage : Stage} {stop : Stop Report}
    (fails : FailsAt files options stage stop) :
    ∃ log, (compile options : StateM FileSystem Ending).run files
      = (⟨log, .error stop⟩, files) := by
  cases fails with
  | inputExtension refused => exact ⟨[], run_of_unrecognised refused⟩
  | outputPath recognised asked refused =>
    refine ⟨[], run_of_unresolved recognised ?_⟩
    rw [run_requestedPath, asked, refused]
    rfl
  | sizeLimit located measured large refused => exact ⟨[], run_of_unread located refused⟩
  | reading located small refused => exact ⟨[], run_of_unread located refused⟩
  | loading located read refused =>
    exact ⟨_, run_of_stopped located read (process_of_unparsed refused)⟩
  | check loads refused =>
    obtain ⟨format, located, parsed⟩ := loads.parsed
    exact ⟨_, run_of_stopped located loads.read (process_of_invalid parsed refused)⟩
  | generation accepts asked refused =>
    obtain ⟨format, located, parsed⟩ := accepts.parsed
    exact ⟨_, run_of_stopped located accepts.read
      (process_of_unmade parsed accepts.valid asked refused)⟩

/-- A box that is accepted ends the command if no model is asked for, and all files are as
they were. -/
theorem Accepts.run {source : SourceText} {loaded : Loaded}
    (accepts : Accepts files options source loaded) (checkOnly : options.checkOnly = true) :
    ∃ log, (compile options : StateM FileSystem Ending).run files
      = (⟨log, .ok s!"{options.file.text}: box is valid\n"⟩, files) := by
  obtain ⟨format, located, parsed⟩ := accepts.parsed
  have requested : ((requestedPath options : StateM FileSystem _).run files).1 = .ok none := by
    rw [run_requestedPath, checkOnly]
    rfl
  refine ⟨(process options format source).log, ?_⟩
  rw [run_of_read located requested accepts.read]
  unfold finish
  rw [process_of_checkOnly parsed accepts.valid checkOnly]
  rfl

/-- What is prepared is written to the output path. -/
theorem Prepares.run {path : Path} {text : String} (prepares : Prepares files options path text) :
    ∃ log, (compile options : StateM FileSystem Ending).run files
      = (⟨log, ((deliver path text : StateM FileSystem _).run files).1⟩,
          ((deliver path text : StateM FileSystem _).run files).2) := by
  obtain ⟨asked, resolved, source, loaded, model, accepts, made, rfl⟩ := prepares
  obtain ⟨format, located, parsed⟩ := accepts.parsed
  have requested : ((requestedPath options : StateM FileSystem _).run files).1
      = .ok (some path) := by
    rw [run_requestedPath, asked, resolved]
    rfl
  refine ⟨(process options format source).log, ?_⟩
  rw [run_of_read located requested accepts.read]
  unfold finish
  rw [process_of_made parsed accepts.valid asked made]
  rfl

/-- An input is located, or one of the first two stages fails. -/
theorem located_or_failsAt (files : FileSystem) (options : Options) :
    (∃ stage stop, FailsAt files options stage stop) ∨ ∃ format, Located files options format := by
  cases recognised : inputFormat options.file with
  | error report => exact .inl ⟨_, _, .inputExtension recognised⟩
  | ok format =>
    cases asked : options.checkOnly with
    | true => exact .inr ⟨format, recognised, by simp [asked]⟩
    | false =>
      cases resolved : outputAmong files options with
      | error report => exact .inl ⟨_, _, .outputPath recognised asked resolved⟩
      | ok path => exact .inr ⟨format, recognised, fun _ => ⟨path, resolved⟩⟩

/-- A located input is accepted, or one of the next stages fails. -/
theorem Located.accepts_or_failsAt {format : Format} (located : Located files options format) :
    (∃ stage stop, FailsAt files options stage stop)
      ∨ ∃ source loaded, Accepts files options source loaded := by
  cases read : sourceAmong files options with
  | error report =>
    by_cases large : ∃ size, files.size options.file = .ok size ∧ options.maxInputBytes < size
    · obtain ⟨size, measured, large⟩ := large
      exact .inl ⟨_, _, .sizeLimit located measured large read⟩
    · refine .inl ⟨_, _, .reading located (fun size measured => ?_) read⟩
      exact Nat.not_lt.mp fun less => large ⟨size, measured, less⟩
  | ok source =>
    cases parsed : load source.text options.file format with
    | error report => exact .inl ⟨_, _, .loading located read parsed⟩
    | ok loaded =>
      have loads : Loads files options source loaded := ⟨read, format, located, parsed⟩
      cases valid : Validity.validate loaded.box options.tolerance with
      | ok _ => exact .inr ⟨source, loaded, loads, valid⟩
      | error stop =>
        obtain ⟨restated, refused⟩ : ∃ restated, (Validity.validate loaded.box
            options.tolerance).mapRefusal loaded.report = .error restated := by
          rw [valid]
          cases stop <;> exact ⟨_, rfl⟩
        exact .inl ⟨_, _, .check loads refused⟩

/-- Either a stage fails, or the box is accepted and no model is asked for, or a model is
prepared. -/
theorem exists_course (files : FileSystem) (options : Options) :
    (∃ stage stop, FailsAt files options stage stop)
      ∨ (options.checkOnly = true ∧ ∃ source loaded, Accepts files options source loaded)
      ∨ ∃ path text, Prepares files options path text := by
  obtain fails | ⟨format, located⟩ := located_or_failsAt files options
  · exact .inl fails
  obtain fails | ⟨source, loaded, accepts⟩ := located.accepts_or_failsAt
  · exact .inl fails
  cases asked : options.checkOnly with
  | true => exact .inr (.inl ⟨rfl, source, loaded, accepts⟩)
  | false =>
    obtain ⟨path, resolved⟩ := located.resolved asked
    cases made : Disclosure.model loaded.box with
    | ok model =>
      exact .inr (.inr ⟨path, _, asked, resolved, source, loaded, model, accepts, made, rfl⟩)
    | error stop =>
      obtain ⟨restated, refused⟩ : ∃ restated,
          (Disclosure.model loaded.box).mapRefusal noModel = .error restated := by
        rw [made]
        cases stop <;> exact ⟨_, rfl⟩
      exact .inl ⟨_, _, .generation accepts asked refused⟩

/-- An output path has the extension of models. -/
theorem extension?_of_outputAmong {path : Path} (resolved : outputAmong files options = .ok path) :
    path.extension? = some modelExtension := by
  unfold outputAmong outputPath at resolved
  simp only at resolved
  rw [(keeps_isDirectory _).run_bind] at resolved
  split at resolved
  · cases resolved
  · split at resolved
    · cases resolved
    · next named =>
      obtain rfl := Except.ok.inj resolved
      simpa using named

/-- An input has another extension. -/
theorem extension?_of_inputFormat {file : Path} {format : Format}
    (recognised : inputFormat file = .ok format) :
    ∃ extension, file.extension? = some extension ∧ modelExtension ≠ extension := by
  unfold inputFormat at recognised
  split at recognised
  · next extension named =>
    refine ⟨extension, named, ?_⟩
    rintro rfl
    split at recognised
    · next source => exact absurd source (by decide)
    · split at recognised
      · next record => exact absurd record (by decide)
      · cases recognised
  · cases recognised

/-- The bytes of a source are those of the input file. -/
theorem read_of_sourceAmong {source : SourceText} (read : sourceAmong files options = .ok source) :
    files.read options.file = .ok source.bytes := by
  unfold sourceAmong readSource at read
  rw [(keeps_size _).run_bind] at read
  split at read
  · cases read
  · split at read
    · cases read
    · rw [(keeps_read _).run_bind] at read
      split at read
      · cases read
      · next bytes content =>
        split at read
        · obtain rfl := Except.ok.inj read
          exact content
        · cases read

/-- How a text is delivered: if the path cannot be written to, the command says so and all
files are as they were. Otherwise what is at one place is replaced or added. It is the text
and nothing more, it is found at the path, and the input keeps its bytes. -/
inductive Delivers (files : FileSystem) (options : Options) (path : Path) (text : String) :
    Attempt Report String → FileSystem → Prop where
  | refused {error : FileError} (failed : files.write path text = .error error) :
      Delivers files options path text
        (Attempt.refuse (.plain s!"Cannot write {path.text}" [error.message])) files
  | written {place : Place} {after : FileSystem} (target : files.target path = .ok place)
      (only : ∀ other, after.entry? other
        = if other = place then some (.file text.toUTF8) else files.entry? other)
      (unmoved : after.workingDirectory = files.workingDirectory)
      (whole : after.read path = .ok text.toUTF8)
      (input : after.read options.file = files.read options.file) :
      Delivers files options path text (.ok s!"PRISM model written to {path.text}\n") after

/-- Delivering a text writes it, and says how that went. -/
theorem run_deliver (path : Path) (text : String) (files : FileSystem) :
    (deliver path text : StateM FileSystem _).run files
      = match files.write path text with
        | .ok after => (.ok s!"PRISM model written to {path.text}\n", after)
        | .error error =>
          (Attempt.refuse (.plain s!"Cannot write {path.text}" [error.message]), files) := by
  have written : (FileAccess.write path text : StateM FileSystem _).run files
      = match files.write path text with
        | .ok after => (.ok (), after)
        | .error error => (.error error, files) := by
    change (match files.write path text with
      | .ok after => (do set after; return .ok () : StateM FileSystem (Except FileError Unit))
      | .error error => return .error error).run files = _
    split <;> rfl
  unfold deliver
  rw [StateT.run_bind, written]
  split <;> rfl

/-- The input of a prepared model has another extension than its output. -/
theorem Prepares.input_named {path : Path} {text : String}
    (prepares : Prepares files options path text) :
    ∃ extension, options.file.extension? = some extension ∧ modelExtension ≠ extension := by
  obtain ⟨-, -, source, loaded, model, accepts, -, -⟩ := prepares
  obtain ⟨format, located, -⟩ := accepts.parsed
  exact extension?_of_inputFormat located.recognised

/-- What is prepared is delivered. -/
theorem Prepares.delivers {path : Path} {text : String}
    (prepares : Prepares files options path text) :
    Delivers files options path text ((deliver path text : StateM FileSystem _).run files).1
      ((deliver path text : StateM FileSystem _).run files).2 := by
  obtain ⟨extension, named, different⟩ := prepares.input_named
  obtain ⟨-, resolved, source, loaded, model, accepts, -, -⟩ := prepares
  rw [run_deliver]
  cases target : files.target path with
  | error error =>
    have failed : files.write path text = .error error := by
      unfold FileSystem.write
      rw [target]
      rfl
    rw [failed]
    exact .refused failed
  | ok place =>
    have written : files.write path text = .ok (files.put place (.file text.toUTF8)) := by
      unfold FileSystem.write
      rw [target]
      rfl
    have read := read_of_sourceAmong accepts.read
    rw [written]
    refine .written target (FileSystem.entry?_put ?_ _) (FileSystem.workingDirectory_put _ _ _)
      (FileSystem.read_put target _) ?_
    · exact FileSystem.ne_root_of_free (FileSystem.of_target target).2.2
    · rw [read]
      exact FileSystem.read_put_of_extension?_ne target read
        (extension?_of_outputAmong resolved) named different _

/-- Compiling touches nothing but its output, and only on success. If a stage before the
writing fails then the command stops as that stage does and all files are as they were; so
they are if only the checks are asked for, which otherwise ends well. In all other cases a
model is prepared for the output path, which has the extension of models and so is not the
path of the input, and one file is written: the text of the model of the box that was read,
with the provenance of its bytes in front exactly if that is asked for. -/
theorem compile_touches_only_output (files : FileSystem) (options : Options) :
    let ran := (compile options : StateM FileSystem Ending).run files
    (∀ stage stop, FailsAt files options stage stop → ran.1.result = .error stop ∧ ran.2 = files)
      ∧ (options.checkOnly = true → ran.2 = files
        ∧ ((¬∃ stage stop, FailsAt files options stage stop) →
          ran.1.result = .ok s!"{options.file.text}: box is valid\n"))
      ∧ (options.checkOnly = false → (¬∃ stage stop, FailsAt files options stage stop) →
        ∃ path text, Prepares files options path text ∧ path.extension? = some modelExtension
          ∧ path ≠ options.file ∧ Delivers files options path text ran.1.result ran.2) := by
  intro ran
  refine ⟨?_, ?_, ?_⟩
  · intro stage stop fails
    obtain ⟨log, run⟩ := fails.run
    simp only [ran, run, and_self]
  · intro checkOnly
    obtain ⟨stage, stop, fails⟩ | ⟨-, source, loaded, accepts⟩ | ⟨path, text, prepares⟩ :=
      exists_course files options
    · obtain ⟨log, run⟩ := fails.run
      exact ⟨by simp only [ran, run], fun succeeds => (succeeds ⟨stage, stop, fails⟩).elim⟩
    · obtain ⟨log, run⟩ := accepts.run checkOnly
      exact ⟨by simp only [ran, run], fun _ => by simp only [ran, run]⟩
    · rw [prepares.asked] at checkOnly
      cases checkOnly
  · intro asked succeeds
    obtain fails | ⟨checkOnly, -⟩ | ⟨path, text, prepares⟩ := exists_course files options
    · exact (succeeds fails).elim
    · rw [asked] at checkOnly
      cases checkOnly
    · obtain ⟨log, run⟩ := prepares.run
      have extension := extension?_of_outputAmong prepares.resolved
      refine ⟨path, text, prepares, extension, ?_, ?_⟩
      · rintro rfl
        obtain ⟨other, named, different⟩ := prepares.input_named
        exact different (Option.some.inj (extension.symm.trans named))
      · simp only [ran, run]
        exact prepares.delivers

/-- The bytes of the record of a box. -/
def recordBytes : ByteArray := "[[\"x\"],[\"a\"],1,1,[[1]]]".toUTF8

/-- A directory with the record in it. -/
def recordFiles : FileSystem where
  workingDirectory := ["home"]
  entries := [(["home"], .directory), (["home", "box.json"], .file recordBytes)]

/-- The model of the box is asked for, with provenance or without it. -/
def recordOptions (provenance : Bool) : Options where
  file := ⟨"box.json"⟩
  output := none
  checkOnly := false
  provenance := provenance
  tolerance := Validity.defaultTolerance
  maxInputBytes := 100

/-- The model of the recorded box is written beside the record, and behind the provenance of its
bytes if that is asked for. -/
theorem recordFiles_compiled :
    (∃ text, Prepares recordFiles (recordOptions false) ⟨"box.prism"⟩ text
      ∧ Delivers recordFiles (recordOptions false) ⟨"box.prism"⟩ text
        (.ok "PRISM model written to box.prism\n")
        ((compile (recordOptions false) : StateM FileSystem Ending).run recordFiles).2)
    ∧ ∃ model, Prepares recordFiles (recordOptions true) ⟨"box.prism"⟩
        ((Provenance.ofSource recordBytes.toList).header ++ model)
      ∧ Delivers recordFiles (recordOptions true) ⟨"box.prism"⟩
        ((Provenance.ofSource recordBytes.toList).header ++ model)
        (.ok "PRISM model written to box.prism\n")
        ((compile (recordOptions true) : StateM FileSystem Ending).run recordFiles).2 := by
  have printed (provenance : Bool) : ((compile (recordOptions provenance) :
      StateM FileSystem Ending).run recordFiles).1.result
        = .ok "PRISM model written to box.prism\n" := by
    cases provenance <;> exact Attempt.eq_ok_of_toOption (by decide +kernel)
  have resolved (provenance : Bool) :
      outputAmong recordFiles (recordOptions provenance) = .ok ⟨"box.prism"⟩ := by
    cases provenance <;> exact Attempt.eq_ok_of_toOption (by decide +kernel)
  have compiled (provenance : Bool) : ∃ text,
      Prepares recordFiles (recordOptions provenance) ⟨"box.prism"⟩ text
        ∧ Delivers recordFiles (recordOptions provenance) ⟨"box.prism"⟩ text
          (.ok "PRISM model written to box.prism\n")
          ((compile (recordOptions provenance) : StateM FileSystem Ending).run recordFiles).2 := by
    obtain ⟨fails, -, succeeds⟩ :=
      compile_touches_only_output recordFiles (recordOptions provenance)
    obtain ⟨path, text, prepares, -, -, delivers⟩ := succeeds rfl fun ⟨stage, stop, failed⟩ => by
      have other := (fails stage stop failed).1.symm.trans (printed provenance)
      cases other
    obtain rfl := Except.ok.inj (prepares.resolved.symm.trans (resolved provenance))
    exact ⟨text, prepares, printed provenance ▸ delivers⟩
  refine ⟨compiled false, ?_⟩
  obtain ⟨text, prepares, delivers⟩ := compiled true
  obtain ⟨source, loaded, model, accepts, -, rfl⟩ := prepares.made
  have bytes : recordFiles.read ⟨"box.json"⟩ = .ok recordBytes := rfl
  have same := Except.ok.inj ((read_of_sourceAmong accepts.read).symm.trans bytes)
  rw [same] at prepares delivers
  exact ⟨model.text, prepares, delivers⟩

end Courses

end Nonlocal.Command
