import Nonlocal.Command.Path
import Nonlocal.Decimal.Numeral
import Nonlocal.Provenance.Header
import Nonlocal.Validity.Check

/-!
# Options of the command

Arguments are read from left to right. An option with a value takes it from the
same argument, after `=` or right after a short name, or from the next argument
if that does not look like an option. A value that comes in the next argument is
looked at when the following known option or the end is reached, so an unknown
argument after it is noticed first.
-/

namespace Nonlocal.Command

/-- What the command is asked to do. -/
structure Options where
  file : Path
  output : Option Path
  checkOnly : Bool
  provenance : Bool
  tolerance : Float
  maxInputBytes : Nat

/-- Why the arguments are not acted on. -/
inductive Usage where
  | help
  | version
  | unknownArgument
  | missingValue
  | unusableValue
  | unexpectedValue
  | repeated
  | missingFile
  deriving DecidableEq, Repr

namespace Usage

/-- The exit code: asking for help or the version is no failure. -/
def exitCode : Usage → Nat
  | .help | .version => 0
  | _ => 2

/-- What is printed for a request for the version. -/
def versionText : String := Provenance.generatorName ++ "\n"

end Usage

/-- The options. -/
inductive Flag where
  | file
  | output
  | check
  | noProvenance
  | tolerance
  | maxInputBytes
  | help
  | version
  deriving DecidableEq, Repr

namespace Flag

/-- All options. -/
def all : List Flag :=
  [.file, .output, .check, .noProvenance, .tolerance, .maxInputBytes, .help, .version]

/-- The name after two dashes. -/
def long : Flag → String
  | .file => "file"
  | .output => "output"
  | .check => "check"
  | .noProvenance => "no-provenance"
  | .tolerance => "tolerance"
  | .maxInputBytes => "max-input-bytes"
  | .help => "help"
  | .version => "version"

/-- The letter after one dash. -/
def short? : Flag → Option Char
  | .file => some 'f'
  | .output => some 'o'
  | .help => some 'h'
  | .version => some 'V'
  | _ => none

/-- Whether an option has a value. -/
def takesValue : Flag → Bool
  | .file | .output | .tolerance | .maxInputBytes => true
  | _ => false

/-- The option with a long name. -/
def ofLong? (name : List Char) : Option Flag := all.find? fun flag => flag.long.toList == name

/-- The option with a letter. -/
def ofShort? (letter : Char) : Option Flag := all.find? fun flag => flag.short? == some letter

end Flag

/-- The limit on the size of an input file if none is given: one mebibyte. -/
def defaultMaxInputBytes : Nat := Nat.pow 2 20

/-- The options that have been settled. -/
structure Chosen where
  file : Option Path := none
  output : Option Path := none
  check : Bool := false
  noProvenance : Bool := false
  tolerance : Option Float := none
  maxInputBytes : Option Nat := none

namespace Chosen

/-- Whether an option has been given before. -/
def has (chosen : Chosen) : Flag → Bool
  | .file => chosen.file.isSome
  | .output => chosen.output.isSome
  | .check => chosen.check
  | .noProvenance => chosen.noProvenance
  | .tolerance => chosen.tolerance.isSome
  | .maxInputBytes => chosen.maxInputBytes.isSome
  | .help | .version => false

/-- A path has to have characters. -/
def readPath (value : List Char) : Except Usage Path :=
  if value.isEmpty then .error .missingValue else .ok ⟨String.ofList value⟩

/-- Settles an option with a value. That it was given before is noticed before the
value is looked at. -/
def settleValue (chosen : Chosen) (flag : Flag) (value : List Char) : Except Usage Chosen :=
  if chosen.has flag then .error .repeated
  else
    match flag with
    | .file => do
      let path ← readPath value
      pure { chosen with file := some path }
    | .output => do
      let path ← readPath value
      pure { chosen with output := some path }
    | .tolerance =>
      match Decimal.readFloat? value with
      | some tolerance => .ok { chosen with tolerance := some tolerance }
      | none => .error .unusableValue
    | .maxInputBytes =>
      match Decimal.readWord? value with
      | some limit => .ok { chosen with maxInputBytes := some limit }
      | none => .error .unusableValue
    | _ => .error .unexpectedValue

/-- Settles an option without a value. -/
def settleFlag (chosen : Chosen) (flag : Flag) : Except Usage Chosen :=
  if chosen.has flag then .error .repeated
  else
    match flag with
    | .check => .ok { chosen with check := true }
    | .noProvenance => .ok { chosen with noProvenance := true }
    | .help => .error .help
    | .version => .error .version
    | _ => .error .missingValue

/-- The options for the command; the file has to be given. -/
def options (chosen : Chosen) : Except Usage Options :=
  match chosen.file with
  | none => .error .missingFile
  | some file => .ok {
      file := file
      output := chosen.output
      checkOnly := chosen.check
      provenance := !chosen.noProvenance
      tolerance := chosen.tolerance.getD Validity.defaultTolerance
      maxInputBytes := chosen.maxInputBytes.getD defaultMaxInputBytes }

end Chosen

/-- How far the arguments have been read: the settled options, and an option whose
value is to come or has come in an argument of its own. -/
structure Progress where
  chosen : Chosen := {}
  pending : Option (Flag × Option (List Char)) := none

namespace Progress

/-- Settles the option that is pending. -/
def settle (progress : Progress) : Except Usage Chosen :=
  match progress.pending with
  | none => .ok progress.chosen
  | some (_, none) => .error .missingValue
  | some (flag, some value) => progress.chosen.settleValue flag value

/-- An option with its value in the same argument. -/
def attached (progress : Progress) (flag : Flag) (value : List Char) :
    Except Usage Progress := do
  let chosen ← progress.settle
  let chosen ← chosen.settleValue flag value
  pure { chosen := chosen }

/-- An option whose value is to come. -/
def expecting (progress : Progress) (flag : Flag) : Except Usage Progress := do
  let chosen ← progress.settle
  pure { chosen := chosen, pending := some (flag, none) }

/-- An option without a value. -/
def plain (progress : Progress) (flag : Flag) : Except Usage Progress := do
  let chosen ← progress.settle
  let chosen ← chosen.settleFlag flag
  pure { chosen := chosen }

/-- An argument that starts with two dashes, which are left out here. -/
def readLong (progress : Progress) (text : List Char) : Except Usage Progress :=
  let name := text.takeWhile (· != '=')
  let afterName := text.dropWhile (· != '=')
  match Flag.ofLong? name, afterName with
  | none, _ => .error .unknownArgument
  | some flag, [] => if flag.takesValue then progress.expecting flag else progress.plain flag
  | some flag, _ :: value =>
    if flag.takesValue then progress.attached flag value else .error .unexpectedValue

/-- An argument that starts with one dash, which is left out here. Letters of options
without a value may be followed by further letters. -/
def readShort (progress : Progress) : List Char → Except Usage Progress
  | [] => .ok progress
  | letter :: rest =>
    match Flag.ofShort? letter with
    | none => .error .unknownArgument
    | some flag =>
      if flag.takesValue then
        match rest with
        | [] => progress.expecting flag
        | '=' :: value => progress.attached flag value
        | value => progress.attached flag value
      else do
        let progress ← progress.plain flag
        progress.readShort rest

/-- An argument that is no option: the value that is to come, or out of place. -/
def readPlain (progress : Progress) (value : List Char) : Except Usage Progress :=
  match progress.pending with
  | some (flag, none) => .ok { progress with pending := some (flag, some value) }
  | _ => .error .unknownArgument

/-- Reads the arguments. After two dashes alone there are no more options, and nothing
else can follow. -/
def readAll (progress : Progress) : List String → Except Usage Chosen
  | [] => progress.settle
  | argument :: rest =>
    match argument.toList with
    | ['-', '-'] => if rest.isEmpty then progress.settle else .error .unknownArgument
    | '-' :: '-' :: text => do
      let progress ← progress.readLong text
      progress.readAll rest
    | '-' :: letter :: letters => do
      let progress ← progress.readShort (letter :: letters)
      progress.readAll rest
    | value => do
      let progress ← progress.readPlain value
      progress.readAll rest

end Progress

/-- The options of the given arguments. -/
def Options.ofArguments (arguments : List String) : Except Usage Options := do
  let chosen ← Progress.readAll {} arguments
  chosen.options

end Nonlocal.Command
