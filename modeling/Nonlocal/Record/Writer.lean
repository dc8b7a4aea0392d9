import Nonlocal.Box
import Nonlocal.Record.Quoted

/-!
# Writing a box record

A record is written without blanks, its fields in the order of declaration.
-/

namespace Nonlocal.Record

/-- Elements in brackets, separated by commas. -/
def writeList (elements : List (List Char)) : List Char :=
  '[' :: [','].intercalate elements ++ [']']

/-- The names of one side. -/
def writeNames (names : List String) : List Char :=
  writeList (names.map fun name => writeString name.toList)

/-- The rows of a matrix. -/
def writeRows (rows : List (List Float)) : List Char :=
  writeList (rows.map fun row =>
    writeList (row.map fun cell => (Decimal.Layout.record.text cell).toList))

/-- The value of a field. -/
def writeField (box : Box Float) : Field → List Char
  | .inputs => writeNames box.inputs
  | .outputs => writeNames box.outputs
  | .inputRange => (toString box.inputRange).toList
  | .outputRange => (toString box.outputRange).toList
  | .probabilities => writeRows box.matrix

/-- A field with its key. -/
def writeEntry (box : Box Float) (field : Field) : List Char :=
  writeString field.key.toList ++ ':' :: writeField box field

/-- The text of a record. -/
def write (box : Box Float) : List Char :=
  '\x7b' :: [','].intercalate (Field.all.map (writeEntry box)) ++ ['\x7d']

end Nonlocal.Record
