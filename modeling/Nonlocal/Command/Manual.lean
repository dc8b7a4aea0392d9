import Nonlocal.Command.Options

/-!
# The manual

The page that explains the options, and what is said about arguments that are not
acted on.
-/

namespace Nonlocal.Command

namespace Flag

/-- What stands for the value of an option in the manual. -/
def valueName? : Flag → Option String
  | .file | .output => some "PATH"
  | .tolerance => some "TOLERANCE"
  | .maxInputBytes => some "MAX_INPUT_BYTES"
  | _ => none

/-- What an option is for. -/
def summary : Flag → String
  | .file => "Input box: a .qgrady source or a .json record"
  | .output => "Output .prism file (default: the input path with a .prism extension)"
  | .check => "Validate the box without writing a model"
  | .noProvenance => "Omit the provenance header lines"
  | .tolerance =>
    "Absolute tolerance for row sums and non-signalling marginals [default: " ++
      ScalarText.text (show Float from Validity.defaultTolerance) ++ "]"
  | .maxInputBytes => s!"Maximum input file size in bytes [default: {defaultMaxInputBytes}]"
  | .help => "Print help"
  | .version => "Print version"

/-- An option as it is written. -/
def form (flag : Flag) : String :=
  let letter := match flag.short? with
    | some letter => "-" ++ letter.toString ++ ", "
    | none => "    "
  let value := match flag.valueName? with
    | some name => " <" ++ name ++ ">"
    | none => ""
  letter ++ "--" ++ flag.long ++ value

end Flag

/-- The forms of all options are followed by their summaries in one column. -/
def optionLines : List String :=
  let column := (Flag.all.map fun flag => flag.form.length).foldl max 0 + 2
  Flag.all.map fun flag =>
    let gap := String.ofList (List.replicate (column - flag.form.length) ' ')
    "  " ++ flag.form ++ gap ++ flag.summary

/-- How the command is called. -/
def callLine : String := "Usage: qgrady [OPTIONS] --file <PATH>"

/-- The manual. -/
def manual : List String :=
  ["Compile non-local boxes into PRISM DTMC models", "", callLine, "", "Options:"] ++ optionLines

/-- What is wrong with arguments, if something is. -/
def Usage.issue? : Usage → Option String
  | .help | .version => none
  | .unknownArgument => some "unexpected argument"
  | .missingValue => some "a value is required for an option but none was supplied"
  | .unusableValue => some "invalid value for an option"
  | .unexpectedValue => some "unexpected value for an option that takes none"
  | .repeated => some "an option cannot be used multiple times"
  | .missingFile => some "the following required arguments were not provided: --file <PATH>"

end Nonlocal.Command
