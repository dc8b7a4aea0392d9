import Nonlocal.Box
import Nonlocal.Record.Skipping

/-!
# Reading a box record

A record is a mapping with the five fields of a box in any order, or a list of
their values in the order of declaration. Unknown fields are passed over.
-/

namespace Nonlocal.Record

/-- The failure at a value that is not of the wanted kind. The value itself has to
be well-formed as far as it is read: constants, numbers and strings are read
whole, of lists and mappings only the first character is. -/
def unexpected (wanted : Wanted) (first : Char) (text : List Char) : Failure :=
  let constant := fun (letters : String) (found : Found) =>
    match readLetters letters.toList text with
    | .ok _ => Failure.mismatch (.wrongKind found wanted)
    | .error failure => failure
  if first = 'n' then constant "ull" .null
  else if first = 't' then constant "rue" (.boolean true)
  else if first = 'f' then constant "alse" (.boolean false)
  else if first = '-' || first.isDigit then
    match readNumber (first :: text) with
    | .ok (number, _) => .mismatch (.wrongKind number.found wanted)
    | .error failure => failure
  else if first = '"' then
    match readString text with
    | .ok (chars, _) => .mismatch (.wrongKind (.string chars) wanted)
    | .error failure => failure
  else if first = '[' then .mismatch (.wrongKind .sequence wanted)
  else if first = openingBrace then .mismatch (.wrongKind .mapping wanted)
  else .malformed

/-- Reads a string. -/
def readText : Reader String := fun text =>
  match next? text with
  | none => .error .truncated
  | some (first, rest) =>
    if first = '"' then
      match readString rest.1 with
      | .ok (chars, later) => .ok (String.ofList chars, rest.rest later)
      | .error failure => .error failure
    else .error (unexpected .string first rest.1)

/-- Reads a number of any kind. -/
def readAnyNumber (wanted : Wanted) : Reader Number := fun text =>
  match skipBlanks text with
  | ⟨[], _⟩ => .error .truncated
  | ⟨first :: rest, isTail⟩ =>
    if first = '-' || first.isDigit then
      match readNumber (first :: rest) with
      | .ok (number, later) => .ok (number, Tail.rest ⟨first :: rest, isTail⟩ later)
      | .error failure => .error failure
    else .error (unexpected wanted first rest)

/-- Reads a count: an integer from 0 upwards. -/
def readCount : Reader Nat := fun text =>
  match readAnyNumber .count text with
  | .error failure => .error failure
  | .ok (.natural value, rest) => .ok (value, rest)
  | .ok (.negative magnitude, _) =>
    .error (.mismatch (.negativeCount (-Int.ofNat magnitude)))
  | .ok (.floating value, _) => .error (.mismatch (.wrongKind (.floating value) .count))

/-- Reads a probability. -/
def readProbability : Reader Float := fun text =>
  match readAnyNumber .number text with
  | .ok (number, rest) => .ok (number.toFloat, rest)
  | .error failure => .error failure

/-- Where the next element of a list starts, or nothing if the list ends. All but the
first element follow a comma. -/
def nextElement? (isFirst : Bool) (text : List Char) : Except Failure (Option (Tail text)) :=
  match skipBlanks text with
  | ⟨[], _⟩ => .error .truncated
  | ⟨char :: rest, isTail⟩ =>
    if char = ']' then .ok none
    else if isFirst then .ok (some ⟨char :: rest, isTail⟩)
    else if char = ',' then
      match skipBlanks rest with
      | ⟨[], _⟩ => .error .truncated
      | ⟨following :: later, isLater⟩ =>
        if following = ']' then .error .malformed
        else .ok (some ⟨following :: later, Nat.le_trans isLater (Nat.le_of_lt isTail)⟩)
    else .error .malformed

/-- The end of a list. -/
def readListEnd (text : List Char) : Except Failure (Rest text) :=
  match next? text with
  | none => .error .truncated
  | some (char, rest) => if char = ']' then .ok rest else .error .malformed

/-- Reads the elements of a list after its opening bracket and puts them in front of
those in `read`, the last one first. The text is a part of `whole`. -/
def readElements {α : Type} (element : Reader α) (whole : List Char) (isFirst : Bool)
    (read : List α) (text : List Char) (isPart : text.length ≤ whole.length) :
    Reading (List α) whole :=
  match nextElement? isFirst text with
  | .error failure => .error failure
  | .ok none =>
    match readListEnd text with
    | .ok rest => .ok (read, ⟨rest.1, Nat.lt_of_lt_of_le rest.2 isPart⟩)
    | .error failure => .error failure
  | .ok (some start) =>
    match element start.1 with
    | .error failure => .error failure
    | .ok (value, rest) =>
      readElements element whole false (value :: read) rest.1
        (Nat.le_of_lt (Nat.lt_of_lt_of_le rest.2 (Nat.le_trans start.2 isPart)))
termination_by text.length
decreasing_by exact Nat.lt_of_lt_of_le rest.2 start.2

/-- Reads a list. -/
def readList {α : Type} (element : Reader α) : Reader (List α) := fun text =>
  match next? text with
  | none => .error .truncated
  | some (first, rest) =>
    if first = '[' then
      match readElements element rest.1 true [] rest.1 (length_le_self rest.1) with
      | .ok (elements, later) => .ok (elements.reverse, rest.rest later)
      | .error failure => .error failure
    else .error (unexpected .sequence first rest.1)

/-- The fields that have been read. -/
structure Fields where
  inputs : Option (List String) := none
  outputs : Option (List String) := none
  inputRange : Option Nat := none
  outputRange : Option Nat := none
  probabilities : Option (List (List Float)) := none

/-- Whether a field has been read. -/
def Fields.has (fields : Fields) : Field → Bool
  | .inputs => fields.inputs.isSome
  | .outputs => fields.outputs.isSome
  | .inputRange => fields.inputRange.isSome
  | .outputRange => fields.outputRange.isSome
  | .probabilities => fields.probabilities.isSome

/-- The value of a field that has to be there. -/
def Field.require {α : Type} (field : Field) : Option α → Except Failure α
  | some value => .ok value
  | none => .error (.mismatch (.missingField field))

/-- The box of the fields; the first missing one in the order of declaration is
reported. -/
def Fields.box (fields : Fields) : Except Failure (Box Float) := do
  let inputs ← Field.inputs.require fields.inputs
  let outputs ← Field.outputs.require fields.outputs
  let inputRange ← Field.inputRange.require fields.inputRange
  let outputRange ← Field.outputRange.require fields.outputRange
  let matrix ← Field.probabilities.require fields.probabilities
  pure ⟨inputs, outputs, inputRange, outputRange, matrix⟩

/-- Reads the value of a field. -/
def Fields.read (fields : Fields) : Field → Reader Fields
  | .inputs => fun text => do
    let (names, rest) ← readList readText text
    pure ({ fields with inputs := some names }, rest)
  | .outputs => fun text => do
    let (names, rest) ← readList readText text
    pure ({ fields with outputs := some names }, rest)
  | .inputRange => fun text => do
    let (range, rest) ← readCount text
    pure ({ fields with inputRange := some range }, rest)
  | .outputRange => fun text => do
    let (range, rest) ← readCount text
    pure ({ fields with outputRange := some range }, rest)
  | .probabilities => fun text => do
    let (rows, rest) ← readList (readList readProbability) text
    pure ({ fields with probabilities := some rows }, rest)

/-- The field with a key. -/
def Field.ofKey? (key : List Char) : Option Field :=
  Field.all.find? fun field => field.key.toList == key

/-- Skips the colon between a key and its value. -/
def readColon (text : List Char) : Except Failure (Rest text) :=
  match next? text with
  | none => .error .truncated
  | some (char, rest) => if char = ':' then .ok rest else .error .malformed

/-- Reads a key after its opening quote, and its value. A second value for a field is
refused as soon as the key is read. -/
def readEntry (fields : Fields) : Reader Fields := fun text =>
  match readString text with
  | .error failure => .error failure
  | .ok (key, rest) =>
    match Field.ofKey? key with
    | some field =>
      if fields.has field then .error (.mismatch (.duplicateField field))
      else
        match readColon rest.1 with
        | .error failure => .error failure
        | .ok later =>
          match fields.read field later.1 with
          | .ok (fields, last) => .ok (fields, rest.rest (later.rest last))
          | .error failure => .error failure
    | none =>
      match readColon rest.1 with
      | .error failure => .error failure
      | .ok later =>
        match skipValue later.1 with
        | .ok last => .ok (fields, rest.rest (later.tail last))
        | .error failure => .error failure

/-- The opening quote of the next key, or nothing if the mapping ends. All but the
first key follow a comma. -/
def nextKey? (isFirst : Bool) (text : List Char) : Except Failure (Option (Rest text)) :=
  match next? text with
  | none => .error .truncated
  | some (char, rest) =>
    if char = closingBrace then .ok none
    else if isFirst then if char = '"' then .ok (some rest) else .error .malformed
    else if char = ',' then
      match next? rest.1 with
      | none => .error .truncated
      | some (following, later) =>
        if following = '"' then .ok (some (rest.rest later)) else .error .malformed
    else .error .malformed

/-- Reads the entries of a mapping after its opening brace. The fields have to be
complete when the closing brace is met. -/
def readEntries (whole : List Char) (isFirst : Bool) (fields : Fields) (text : List Char)
    (isPart : text.length ≤ whole.length) : Reading (Box Float) whole :=
  match nextKey? isFirst text with
  | .error failure => .error failure
  | .ok none =>
    match fields.box, next? text with
    | .error failure, _ => .error failure
    | .ok _, none => .error .truncated
    | .ok box, some (_, rest) => .ok (box, ⟨rest.1, Nat.lt_of_lt_of_le rest.2 isPart⟩)
  | .ok (some start) =>
    match readEntry fields start.1 with
    | .error failure => .error failure
    | .ok (fields, rest) =>
      readEntries whole false fields rest.1
        (Nat.le_of_lt (Nat.lt_of_lt_of_le (start.rest rest).2 isPart))
termination_by text.length
decreasing_by exact Nat.lt_trans rest.2 start.2

/-- Reads the element of a list that stands for a field. -/
def readPosition (fields : Fields) (isFirst : Bool) (field : Field) (position : Nat) :
    Reader Fields := fun text =>
  match nextElement? isFirst text with
  | .error failure => .error failure
  | .ok none => .error (.mismatch (.shortSequence position))
  | .ok (some start) =>
    match fields.read field start.1 with
    | .ok (fields, rest) => .ok (fields, start.rest rest)
    | .error failure => .error failure

/-- Reads the elements of a list that stand for the given fields. -/
def readPositions (whole : List Char) :
    (fields : Fields) → (expected : List (Field × Nat)) → (text : List Char) →
    text.length ≤ whole.length → Reading (Box Float) whole
  | fields, [], text, isPart =>
    match fields.box, readListEnd text with
    | .error failure, _ => .error failure
    | .ok _, .error failure => .error failure
    | .ok box, .ok rest => .ok (box, ⟨rest.1, Nat.lt_of_lt_of_le rest.2 isPart⟩)
  | fields, (field, position) :: expected, text, isPart =>
    match readPosition fields (position == 0) field position text with
    | .error failure => .error failure
    | .ok (fields, rest) =>
      readPositions whole fields expected rest.1
        (Nat.le_of_lt (Nat.lt_of_lt_of_le rest.2 isPart))

/-- Reads a record in either form. -/
def readBox : Reader (Box Float) := fun text =>
  match next? text with
  | none => .error .truncated
  | some (first, rest) =>
    if first = '[' then
      match readPositions rest.1 {} Field.all.zipIdx rest.1 (length_le_self rest.1) with
      | .ok (box, later) => .ok (box, rest.rest later)
      | .error failure => .error failure
    else if first = openingBrace then
      match readEntries rest.1 true {} rest.1 (length_le_self rest.1) with
      | .ok (box, later) => .ok (box, rest.rest later)
      | .error failure => .error failure
    else .error (unexpected .record first rest.1)

/-- Reads a text that is a record and nothing else. -/
def read (text : List Char) : Except Failure (Box Float) :=
  match readBox text with
  | .error failure => .error failure
  | .ok (box, rest) =>
    match next? rest.1 with
    | none => .ok box
    | some _ => .error .malformed

end Nonlocal.Record
