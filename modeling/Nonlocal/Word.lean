/-!
# Words and the operations that can fail on them

Ranges, counts and indices are words of 64 bits. They are kept as natural
numbers, so ordinary arithmetic applies to them; an operation whose exact
result is no word has no result, and the caller either answers for that case
(`Word.add?`, `Word.mul?`) or stops with a `Fault` (`Word.add`, `Word.sub`).

An `Attempt` is a computation that ends in a value, in a refusal of its
request, or in a fault. Requests are refused for reasons that belong to the
domain; a fault means that the computation itself stepped outside a list or a
word.
-/

namespace Nonlocal

/-- Ways in which an operation on words or lists can have no result. -/
inductive Fault where
  /-- An index or the end of a slice lies beyond its list. -/
  | outOfBounds
  /-- The exact result is negative or does not fit its word. -/
  | overflow
  /-- A word is shifted by its own width or more. -/
  | excessShift
  /-- A quotient has divisor zero. -/
  | zeroDivisor
  /-- An ascending walk reached a value that is not above the one before. -/
  | noProgress
  deriving DecidableEq, Repr

/-- Why an attempt ends without a value. -/
inductive Stop (ε : Type) where
  | refused (error : ε)
  | fault (fault : Fault)
  deriving DecidableEq, Repr

/-- A computation that ends in a value, a refusal or a fault. -/
abbrev Attempt (ε α : Type) := Except (Stop ε) α

namespace Attempt

variable {ε δ α : Type}

/-- The request is refused. -/
def refuse (error : ε) : Attempt ε α := .error (.refused error)

/-- The computation faults. -/
def fail (fault : Fault) : Attempt ε α := .error (.fault fault)

/-- A result that can only be a value or a refusal. -/
def ofExcept : Except ε α → Attempt ε α
  | .ok value => .ok value
  | .error error => refuse error

/-- Restates refusals and leaves values and faults alone. -/
def mapRefusal (restate : ε → δ) : Attempt ε α → Attempt δ α
  | .ok value => .ok value
  | .error (.refused error) => refuse (restate error)
  | .error (.fault fault) => fail fault

/-- The element of a list at an index inside it. -/
def get (elements : List α) (index : Nat) : Attempt ε α :=
  match elements[index]? with
  | some element => .ok element
  | none => fail .outOfBounds

end Attempt

namespace Word

/-- The number of bits of a word. -/
def width : Nat := 64

/-- The least number that is no word. -/
def limit : Nat := Nat.pow 2 width

/-- The greatest word. -/
def greatest : Nat := limit - 1

/-- The greatest signed word. -/
def greatestSigned : Nat := Nat.pow 2 (width - 1) - 1

/-- A number, provided that it is a word. -/
def check? (value : Nat) : Option Nat :=
  if value < limit then some value else none

/-- The sum, provided that it is a word. -/
def add? (a b : Nat) : Option Nat := check? (a + b)

/-- The product, provided that it is a word. -/
def mul? (a b : Nat) : Option Nat := check? (a * b)

/-- The power, provided that it is a word. A base above 1 has no power with an
exponent of `width` or more inside the word, and the powers of 0 and 1 with a
positive exponent are the base itself, so a large exponent costs nothing. -/
def pow? (base exponent : Nat) : Option Nat :=
  if base ≤ 1 then check? (Nat.pow base (min exponent 1))
  else if exponent < width then check? (Nat.pow base exponent)
  else none

variable {ε : Type}

/-- The sum; one beyond the word is an overflow. -/
def add (a b : Nat) : Attempt ε Nat :=
  if a + b < limit then .ok (a + b) else Attempt.fail .overflow

/-- The difference; a negative one is an overflow. -/
def sub (a b : Nat) : Attempt ε Nat :=
  if b ≤ a then .ok (a - b) else Attempt.fail .overflow

/-- The quotient, which needs a positive divisor. -/
def div (a b : Nat) : Attempt ε Nat :=
  if b = 0 then Attempt.fail .zeroDivisor else .ok (a / b)

/-- Moves the bits of a word upwards and drops those that leave it. The
distance has to be less than the width. -/
def shiftLeft (a distance : Nat) : Attempt ε Nat :=
  if distance < width then .ok (a <<< distance % limit) else Attempt.fail .excessShift

/-- The two's complement: the word that adds up with `a` to `limit`, or 0. -/
def negate (a : Nat) : Nat := (limit - a) % limit

end Word

/-- Runs `step` on `first`, `first + 1`, … for `count` values in all and stops at
the first failure, so a long run costs no more than its executed part. -/
def foldValues {ε σ : Type} (step : σ → Nat → Except ε σ) :
    (count first : Nat) → σ → Except ε σ
  | 0, _, state => .ok state
  | count + 1, first, state =>
    match step state first with
    | .ok next => foldValues step count (first + 1) next
    | .error stop => .error stop

end Nonlocal
