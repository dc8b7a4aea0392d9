import Nonlocal.Word

/-!
# Tuples and their indices

A tuple `(d₀, …, dₙ₋₁)` of digits below a radix `r` is numbered
`d₀·rⁿ⁻¹ + … + dₙ₋₁`, most significant digit first. Rows and columns of a box
are addressed by these numbers, which have to be words.
-/

namespace Nonlocal.Tuple

/-- Why a tuple has no index. -/
inductive CodecError where
  | digitOutOfRange (position digit radix : Nat)
  | overflow (radix length : Nat)
  deriving DecidableEq, Repr

/-- The wording of a refused tuple. -/
def CodecError.message : CodecError → String
  | .digitOutOfRange position digit radix =>
    s!"digit {digit} at position {position} is outside radix {radix}"
  | .overflow radix length => s!"{radix}^{length} does not fit the index space"

/-- The number of tuples of a length. -/
def total (radix length : Nat) : Nat := Nat.pow radix length

/-- Only the empty tuple has no digit. -/
theorem total_zero (radix : Nat) : total radix 0 = 1 := rfl

/-- One more digit multiplies the number of tuples by the radix. -/
theorem total_succ (radix length : Nat) :
    total radix (length + 1) = total radix length * radix := rfl

/-- Lengths above this bound are not counted, whatever the radix. -/
def lengthLimit : Nat := Nat.pow 2 32

/-- The number of tuples of a length, provided that it is a word and the length
is below `lengthLimit`. -/
def count? (radix length : Nat) : Option Nat :=
  if length < lengthLimit then Word.pow? radix length else none

/-- Continues an encoding: `index` stands for the digits before `position`. -/
def encodeFrom (radix length : Nat) : (position index : Nat) → List Nat → Except CodecError Nat
  | _, index, [] => .ok index
  | position, index, digit :: rest =>
    if digit < radix then
      match (Word.mul? index radix).bind (Word.add? · digit) with
      | some index => encodeFrom radix length (position + 1) index rest
      | none => .error (.overflow radix length)
    else .error (.digitOutOfRange position digit radix)

/-- The index of a tuple. The first digit that is outside the radix or makes the
index outgrow its word decides the refusal. -/
def encode (radix : Nat) (digits : List Nat) : Except CodecError Nat :=
  encodeFrom radix digits.length 0 0 digits

/-- Puts the `length` lowest digits of `index` in front of `digits`. -/
def decodeOnto (radix : Nat) : (length index : Nat) → (digits : List Nat) → List Nat
  | 0, _, digits => digits
  | length + 1, index, digits =>
    decodeOnto radix length (index / radix) (index % radix :: digits)

/-- The tuple of a length whose index is `index` modulo the number of tuples. In
radix 0 and 1 every digit is 0. -/
def decode (radix length index : Nat) : List Nat :=
  if radix ≤ 1 then List.replicate length 0 else decodeOnto radix length index []

/-- The tuple with one more digit, put at a position that is at most its length. -/
def insertAt {ε : Type} (digits : List Nat) (position value : Nat) : Attempt ε (List Nat) :=
  if position ≤ digits.length then
    .ok (digits.take position ++ value :: digits.drop position)
  else Attempt.fail .outOfBounds

end Nonlocal.Tuple
