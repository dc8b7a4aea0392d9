import Nonlocal.Command.Compile
import Nonlocal.Command.Manual

/-!
# The program

The command acts on the files of the machine, prints what it has to say, and
tells how it went by its exit code: 0 if all is well, 1 if the box or a file
stands in the way, 2 if the arguments make no sense.
-/

namespace Nonlocal.Command

/-- What a failed system call says. -/
def fileError : IO.Error → FileError
  | .noFileOrDirectory .. => .notFound
  | .inappropriateType _ code details =>
    if code = 20 then .notADirectory
    else if code = 21 then .isADirectory
    else .other s!"{details} (os error {code})"
  | .permissionDenied _ code details
  | .resourceExhausted _ code details
  | .invalidArgument _ code details => .other s!"{details} (os error {code})"
  | error => .other (toString error)

/-- Runs an operation on the file of a path. -/
def attempt {α : Type} (path : Path) (operation : IO α) : IO (Except FileError α) := do
  match path.ensureUsable with
  | .error error => return .error error
  | .ok () =>
    match ← operation.toBaseIO with
    | .ok value => return .ok value
    | .error error => return .error (fileError error)

/-- Counts the bytes that are left to read. -/
partial def countBytes (handle : IO.FS.Handle) (counted : Nat) : IO Nat := do
  let chunk ← handle.read 65536
  if chunk.isEmpty then return counted else countBytes handle (counted + chunk.size)

instance : FileAccess IO where
  isDirectory path := do
    -- only a directory can be entered
    match ← attempt path (IO.FS.realPath (path.text ++ "/.")) with
    | .ok _ => return true
    | .error _ => return false
  size path := attempt path do countBytes (← IO.FS.Handle.mk path.text .read) 0
  read path := attempt path (IO.FS.readBinFile path.text)
  write path text := attempt path (IO.FS.writeFile path.text text)

/-- Compiles a box and reports how it went. -/
def perform (options : Options) : IO UInt32 := do
  let work : IO Ending := compile options
  let ending ← work
  for entry in ending.log do
    if Verbosity.info.shows entry.level then entry.lines.forM fun line => IO.eprintln line
  match ending.result with
  | .ok printed =>
    IO.print printed
    return 0
  | .error (.refused report) =>
    report.lines.forM fun line => IO.eprintln line
    return 1
  | .error (.fault _) =>
    IO.eprintln "Error: the computation left its bounds"
    return 101

/-- Answers arguments that are not acted on. -/
def answerUsage (usage : Usage) : IO UInt32 := do
  match usage.issue? with
  | some issue =>
    IO.eprintln ("error: " ++ issue ++ "\n\n" ++ callLine)
  | none =>
    if usage = .version then IO.print Usage.versionText
    else manual.forM fun line => IO.println line
  return usage.exitCode.toUInt32

/-- Runs the command with the given arguments. -/
def run (arguments : List String) : IO UInt32 :=
  match Options.ofArguments arguments with
  | .ok options => perform options
  | .error usage => answerUsage usage

end Nonlocal.Command

/-- The program. -/
def main (arguments : List String) : IO UInt32 := Nonlocal.Command.run arguments
