import Nonlocal.Word

/-!
# Sets of parties

A set of parties is a word whose bit `i` says whether party `i` belongs to it.
`proper` lists the sets that are neither empty nor everything, by size and then
by value. Within one size each set follows from the one before: the lowest run
of ones moves its top bit one place up and the rest of the run to the bottom.
-/

namespace Nonlocal.PartySet

variable {ε : Type}

/-- There are bits for this many parties; one bit stays free for the limit. -/
def maxParties : Nat := 63

/-- The lowest one of a word, as a word of its own. -/
def lowestBit (mask : Nat) : Nat := mask &&& Word.negate mask

/-- The next greater word with the same number of ones. -/
def nextSameSize (mask : Nat) : Attempt ε Nat := do
  let lowest := lowestBit mask
  let ripple ← Word.add mask lowest
  let tail ← Word.div ((ripple ^^^ mask) >>> 2) lowest
  pure (tail ||| ripple)

/-- The words from `mask` on that have its size and stay below `limit`. Each has to
be greater than the one before. -/
def sameSizeFrom (limit mask : Nat) : Attempt ε (List Nat) :=
  if mask < limit then
    match nextSameSize mask with
    | .error stop => .error stop
    | .ok following =>
      if mask < following then
        match sameSizeFrom limit following with
        | .error stop => .error stop
        | .ok masks => .ok (mask :: masks)
      else Attempt.fail .noProgress
  else .ok []
termination_by limit - mask

/-- The sets of one size. -/
def ofSize (limit size : Nat) : Attempt ε (List Nat) := do
  let bit ← Word.shiftLeft 1 size
  let smallest ← Word.sub bit 1
  sameSizeFrom limit smallest

/-- All nonempty proper sets of `parties` parties, by size and then by value. There
are none to list without parties or beyond `maxParties`. -/
def proper (parties : Nat) : Attempt ε (List Nat) :=
  if parties = 0 ∨ maxParties < parties then .ok []
  else do
    let limit ← Word.shiftLeft 1 parties
    let perSize ← (List.range' 1 (parties - 1)).mapM fun size => ofSize limit size
    pure perSize.flatten

/-- The parties of a set from `party` on, `count` of them looked at. -/
def membersFrom (mask : Nat) : (count party : Nat) → Attempt ε (List Nat)
  | 0, _ => .ok []
  | count + 1, party => do
    let bit ← Word.shiftLeft 1 party
    let rest ← membersFrom mask count (party + 1)
    pure (if mask &&& bit = 0 then rest else party :: rest)

/-- The parties of a set in ascending order. A party without a bit is a fault. -/
def members (mask parties : Nat) : Attempt ε (List Nat) := membersFrom mask parties 0

end Nonlocal.PartySet
