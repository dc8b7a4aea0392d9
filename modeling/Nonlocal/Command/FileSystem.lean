import Nonlocal.Command.Path
import Nonlocal.Text.Utf8

/-!
# Files

`FileAccess` is what the command asks of files: whether a path is a directory,
how long a file is, its bytes, and to write a text. `FileSystem` is a value that
answers these questions: a tree of directories and files with a working
directory, in which writing replaces or adds one file. A path is followed from
component to component; the first one that cannot be entered decides the error,
and paths that are empty, too long or hold a zero character are not followed.
-/

namespace Nonlocal.Command

/-- Why an operation on files fails. -/
inductive FileError where
  | notFound
  | notADirectory
  | isADirectory
  | nameTooLong
  | zeroInName
  | invalidText
  | other (message : String)
  deriving DecidableEq, Repr

/-- The wording of a file error. -/
def FileError.message : FileError → String
  | .notFound => "No such file or directory (os error 2)"
  | .notADirectory => "Not a directory (os error 20)"
  | .isADirectory => "Is a directory (os error 21)"
  | .nameTooLong => "File name too long (os error 36)"
  | .zeroInName => "file name contained an unexpected NUL byte"
  | .invalidText => "stream did not contain valid UTF-8"
  | .other message => message

/-- Paths have to be shorter than this number of bytes. -/
def pathLimit : Nat := 4096

/-- The longest component of a path in bytes. -/
def componentLimit : Nat := 255

/-- Refuses a path that leads nowhere whatever files there are. -/
def Path.ensureUsable (path : Path) : Except FileError Unit :=
  let characters := path.text.toList
  if characters.contains '\x00' then .error .zeroInName
  else if characters = [] then .error .notFound
  else if pathLimit ≤ Text.utf8Length characters then .error .nameTooLong
  else .ok ()

/-- Operations on files. -/
class FileAccess (m : Type → Type) where
  /-- Whether a path leads to a directory. -/
  isDirectory : Path → m Bool
  /-- Number of bytes of a file. -/
  size : Path → m (Except FileError Nat)
  /-- The bytes of a file. -/
  read : Path → m (Except FileError ByteArray)
  /-- Replaces the content of a file or creates it. -/
  write : Path → String → m (Except FileError Unit)

/-- The names on the way from the root. -/
abbrev Place := List String

/-- What is found at a place. -/
inductive Entry where
  | file (content : ByteArray)
  | directory

/-- A tree of files. The root is always a directory. -/
structure FileSystem where
  workingDirectory : Place
  entries : List (Place × Entry)

namespace FileSystem

/-- What is at a place. -/
def entry? (files : FileSystem) (place : Place) : Option Entry :=
  if place = [] then some .directory else files.entries.lookup place

/-- A place that has to be a directory. -/
def ensureDirectory (files : FileSystem) (place : Place) : Except FileError Unit :=
  match files.entry? place with
  | some .directory => .ok ()
  | some (.file _) => .error .notADirectory
  | none => .error .notFound

/-- The place that a component leads to from a directory, which has to exist. -/
def enter (files : FileSystem) (place : Place) (component : String) :
    Except FileError Place := do
  files.ensureDirectory place
  if component = "" || component = "." then pure place
  else if component = ".." then pure place.dropLast
  else if componentLimit < Text.utf8Length component.toList then .error .nameTooLong
  else pure (place ++ [component])

/-- The place at which a path starts. -/
def origin (files : FileSystem) (path : Path) : Place :=
  if path.isAbsolute then [] else files.workingDirectory

/-- What a path leads to. Every component but the last has to be a directory. -/
def find (files : FileSystem) (path : Path) : Except FileError Entry := do
  path.ensureUsable
  let place ← path.components.foldlM files.enter (files.origin path)
  match files.entry? place with
  | some entry => pure entry
  | none => .error .notFound

/-- Whether a path leads to a directory. -/
def isDirectory (files : FileSystem) (path : Path) : Bool :=
  match files.find path with
  | .ok .directory => true
  | _ => false

/-- The size that is reported for a directory. -/
def directorySize : Nat := 4096

/-- Number of bytes of what a path leads to. -/
def size (files : FileSystem) (path : Path) : Except FileError Nat := do
  match ← files.find path with
  | .file content => pure content.size
  | .directory => pure directorySize

/-- The bytes of a file. -/
def read (files : FileSystem) (path : Path) : Except FileError ByteArray := do
  match ← files.find path with
  | .file content => pure content
  | .directory => .error .isADirectory

/-- The place to which a file of the given path is written. The directory has to exist;
a path that ends in slashes can only be a directory. -/
def target (files : FileSystem) (path : Path) : Except FileError Place := do
  path.ensureUsable
  let backwards := path.components.reverse.dropWhile (· = "")
  let directory ← backwards.tail.reverse.foldlM files.enter (files.origin path)
  if path.endsInSlash then
    files.ensureDirectory directory
    .error .isADirectory
  else
    let place ← files.enter directory (backwards.headD "")
    match files.entry? place with
    | some .directory => .error .isADirectory
    | _ => pure place

/-- The tree with one entry replaced or added. -/
def put (files : FileSystem) (place : Place) (entry : Entry) : FileSystem :=
  if files.entries.any (·.1 = place) then
    { files with entries := files.entries.map fun old =>
        if old.1 = place then (place, entry) else old }
  else { files with entries := files.entries ++ [(place, entry)] }

/-- Writes a text to a path. -/
def write (files : FileSystem) (path : Path) (text : String) :
    Except FileError FileSystem := do
  let place ← files.target path
  pure (files.put place (.file text.toUTF8))

instance : FileAccess (StateM FileSystem) where
  isDirectory path := do return (← get).isDirectory path
  size path := do return (← get).size path
  read path := do return (← get).read path
  write path text := do
    match (← get).write path text with
    | .ok files =>
      set files
      return .ok ()
    | .error error => return .error error

end FileSystem

end Nonlocal.Command
