import Nonlocal.Decimal.Layout
import Nonlocal.Text.Escaped

/-!
# Why a text is no box record

A text fails to be a record because it ends too early, because it is not
well-formed, or because a well-formed part of it is not what a record has at
that place. Texts are read from left to right and the first problem decides.
-/

namespace Nonlocal.Record

/-- The fields of a record. -/
inductive Field where
  | inputs
  | outputs
  | inputRange
  | outputRange
  | probabilities
  deriving DecidableEq, Repr

/-- The fields in the order of their declaration. -/
def Field.all : List Field := [.inputs, .outputs, .inputRange, .outputRange, .probabilities]

/-- The key under which a field is written. -/
def Field.key : Field → String
  | .inputs => "inputs"
  | .outputs => "outputs"
  | .inputRange => "input_range"
  | .outputRange => "output_range"
  | .probabilities => "probabilities"

/-- A value as messages describe it. -/
inductive Found where
  | null
  | boolean (value : Bool)
  | integer (value : Int)
  | floating (value : Float)
  | string (value : List Char)
  | sequence
  | mapping
  deriving DecidableEq

/-- The description of a value. -/
def Found.message : Found → String
  | .null => "null"
  | .boolean true => "boolean `true`"
  | .boolean false => "boolean `false`"
  | .integer value => s!"integer `{value}`"
  | .floating value => s!"floating point `{Decimal.Layout.record.text value}`"
  | .string value => "string " ++ Text.quoted value
  | .sequence => "sequence"
  | .mapping => "map"

/-- What a record has at a place. -/
inductive Wanted where
  | record
  | sequence
  | string
  | count
  | number
  deriving DecidableEq, Repr

/-- The description of what is wanted. -/
def Wanted.message : Wanted → String
  | .record => "struct DistributionTable"
  | .sequence => "a sequence"
  | .string => "a string"
  | .count => "usize"
  | .number => "f64"

/-- Ways in which a well-formed part is not what a record has at its place. -/
inductive Mismatch where
  /-- A value of another kind. -/
  | wrongKind (found : Found) (wanted : Wanted)
  /-- An integer below 0 where a count is wanted. -/
  | negativeCount (value : Int)
  /-- A second value for a field. -/
  | duplicateField (field : Field)
  /-- No value for a field. -/
  | missingField (field : Field)
  /-- A sequence that ends before the last field. -/
  | shortSequence (length : Nat)
  deriving DecidableEq

/-- The wording of a mismatch. -/
def Mismatch.message : Mismatch → String
  | .wrongKind found wanted => s!"invalid type: {found.message}, expected {wanted.message}"
  | .negativeCount value =>
    s!"invalid value: integer `{value}`, expected {Wanted.count.message}"
  | .duplicateField field => s!"duplicate field `{field.key}`"
  | .missingField field => s!"missing field `{field.key}`"
  | .shortSequence length =>
    s!"invalid length {length}, expected {Wanted.record.message} with 5 elements"

/-- Why a text is no record. -/
inductive Failure where
  /-- The text ends inside a value. -/
  | truncated
  /-- A character is out of place, or a number or an escape says nothing. -/
  | malformed
  /-- A part is not what a record has at its place. -/
  | mismatch (mismatch : Mismatch)
  deriving DecidableEq

end Nonlocal.Record
