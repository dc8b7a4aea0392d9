import Nonlocal.Text.Lines

/-!
# Paths

A path is a row of components separated by slashes. Slashes at its end, empty
components and single dots name nothing and are passed over when the final
component is looked for; two dots are no file name. The extension of a name is
what follows its last dot, unless that dot is the first character.
-/

namespace Nonlocal.Command

/-- A path as it is written. -/
structure Path where
  text : String
  deriving DecidableEq, Repr

namespace Path

/-- Drops slashes and dot components from the end of a path, which is given
backwards. -/
def trimEnd : List Char → List Char
  | '/' :: rest => trimEnd rest
  | '.' :: '/' :: rest => trimEnd rest
  | rest => rest

/-- A file name and what comes before it. -/
structure Located where
  before : List Char
  name : List Char
  deriving DecidableEq, Repr

/-- The final component, if it is a file name. -/
def located? (path : Path) : Option Located :=
  let backwards := trimEnd path.text.toList.reverse
  let name := (backwards.takeWhile (· != '/')).reverse
  if name = [] || name = ['.'] || name = ['.', '.'] then none
  else some ⟨(backwards.dropWhile (· != '/')).reverse, name⟩

/-- A file name without its extension, and the extension if there is one. -/
def splitName (name : List Char) : List Char × Option (List Char) :=
  let backwards := name.reverse
  match backwards.dropWhile (· != '.') with
  | [] | [_] => (name, none)
  | _ :: stem => (stem.reverse, some (backwards.takeWhile (· != '.')).reverse)

/-- The extension of the final component. -/
def extension? (path : Path) : Option String :=
  path.located?.bind fun located => (splitName located.name).2.map String.ofList

/-- The path with an extension behind the stem of its file name; a path without a file
name stays as it is. -/
def extended (path : Path) (extension : String) : Path :=
  match path.located? with
  | none => path
  | some located =>
    ⟨String.ofList (located.before ++ (splitName located.name).1) ++ "." ++ extension⟩

/-- The path without the last characters of its text. -/
def dropEnd (path : Path) (count : Nat) : Path :=
  let characters := path.text.toList
  ⟨String.ofList (characters.take (characters.length - count))⟩

/-- The path with another extension. As many characters as the old one has are taken off
the end first. A stem that is a single dot then leaves two dots, which are no file name,
unless something follows the name. -/
def withExtension (path : Path) (extension : String) : Path :=
  (path.dropEnd ((path.extension?.map String.length).getD 0)).extended extension

/-- Whether a path starts at the root. -/
def isAbsolute (path : Path) : Bool := path.text.toList.head? == some '/'

/-- The components of a path, empty ones included. -/
def components (path : Path) : List String :=
  (Text.split '/' path.text.toList).map String.ofList

/-- Whether a path ends in a slash. -/
def endsInSlash (path : Path) : Bool := path.text.toList.getLast? == some '/'

end Path

end Nonlocal.Command
