import Mathlib.Tactic.Ring
import Nonlocal.Proofs.Tuple.Enumeration

/-!
# Indices along the walk

The index of a tuple is the number that its digits write in the radix. While the
number of all tuples is a word, no prefix outgrows its word, so encoding
succeeds on every tuple that fits. Along the walk the indices ascend by one from
zero: rows and columns of a matrix are met in their order, none is left out.
-/

namespace Nonlocal.Tuple

/-- The number that a tuple writes after the digits that `index` stands for. -/
def place (radix : Nat) (index : Nat) (digits : List Nat) : Nat :=
  digits.foldl (fun index digit => index * radix + digit) index

/-- A word below the limit is accepted. -/
theorem check?_of_lt {value : Nat} (word : value < Word.limit) :
    Word.check? value = some value := by
  simp [Word.check?, word]

/-- Encoding a fitting rest succeeds as long as the tuples with this beginning
have indices that are words.

One more digit keeps the bound, since it splits the tuples with this beginning
into one share for each value of the digit. -/
theorem encodeFrom_eq_place {radix length position index : Nat} {digits : List Nat}
    (inside : ∀ digit ∈ digits, digit < radix)
    (room : (index + 1) * total radix digits.length ≤ Word.limit) :
    encodeFrom radix length position index digits = .ok (place radix index digits) := by
  induction digits generalizing position index with
  | nil => rfl
  | cons digit rest inductionHypothesis =>
    have first : digit < radix := inside digit List.mem_cons_self
    have later : ∀ other ∈ rest, other < radix := fun other member =>
      inside other (List.mem_cons_of_mem digit member)
    have step : index * radix + digit + 1 ≤ (index + 1) * radix := by
      rw [Nat.add_mul]
      omega
    have roomLater : (index * radix + digit + 1) * total radix rest.length ≤ Word.limit := by
      calc (index * radix + digit + 1) * total radix rest.length
          ≤ (index + 1) * radix * total radix rest.length := Nat.mul_le_mul_right _ step
        _ = (index + 1) * total radix (digit :: rest).length := by
          rw [List.length_cons, total_succ, Nat.mul_assoc, Nat.mul_comm radix]
        _ ≤ Word.limit := room
    have positive : 0 < total radix rest.length := Nat.pow_pos (by omega)
    have bound : index * radix + digit + 1 ≤ Word.limit :=
      (Nat.le_mul_of_pos_right _ positive).trans roomLater
    have multiplied : Word.mul? index radix = some (index * radix) :=
      check?_of_lt (by omega)
    have added : Word.add? (index * radix) digit = some (index * radix + digit) :=
      check?_of_lt (by omega)
    simp only [encodeFrom, first, if_true, multiplied, Option.bind_some, added]
    exact inductionHypothesis later roomLater

/-- While the number of tuples is a word, every fitting tuple has an index, the
number that its digits write. -/
theorem encode_eq_place {radix length : Nat} {digits : List Nat} (fits : Fits radix length digits)
    (words : total radix length ≤ Word.limit) :
    encode radix digits = .ok (place radix 0 digits) := by
  refine encodeFrom_eq_place fits.2 ?_
  rw [fits.1]
  omega

/-- Only digits below the radix are encoded. -/
theorem lt_of_encodeFrom {radix length position index result : Nat} {digits : List Nat}
    (encoded : encodeFrom radix length position index digits = .ok result) :
    ∀ digit ∈ digits, digit < radix := by
  induction digits generalizing position index with
  | nil => simp
  | cons digit rest inductionHypothesis =>
    simp only [encodeFrom] at encoded
    split at encoded
    · next inside =>
      split at encoded
      · exact List.forall_mem_cons.mpr ⟨inside, inductionHypothesis encoded⟩
      · cases encoded
    · cases encoded

/-- After a beginning, the indices along the walk are consecutive numbers. -/
theorem map_place_walk (radix length index : Nat) :
    (walk radix length).map (place radix index)
      = List.range' (index * total radix length) (total radix length) := by
  induction length generalizing index with
  | zero => simp [walk_zero, total_zero, place]
  | succ length inductionHypothesis =>
    have share (digit : Nat) : ((walk radix length).map (digit :: ·)).map (place radix index)
        = List.range' ((index * radix + digit) * total radix length) (total radix length) := by
      rw [← inductionHypothesis, List.map_map]
      rfl
    have shares (count : Nat) :
        (List.range count).flatMap (fun digit =>
            List.range' ((index * radix + digit) * total radix length) (total radix length))
          = List.range' (index * radix * total radix length) (count * total radix length) := by
      induction count with
      | zero => simp
      | succ count inductionHypothesis =>
        rw [List.range_succ, List.flatMap_append, inductionHypothesis, List.flatMap_singleton,
          Nat.add_mul, Nat.add_mul, Nat.one_mul, List.range'_append_1]
    rw [walk_succ, List.map_flatMap]
    simp only [share]
    rw [shares radix, total_succ, Nat.mul_comm (total radix length) radix, ← Nat.mul_assoc]

/-- Along the walk the indices are all numbers from zero on, in their order. -/
theorem map_place_zero_walk (radix length : Nat) :
    (walk radix length).map (place radix 0) = List.range (total radix length) := by
  rw [map_place_walk, Nat.zero_mul, List.range_eq_range']

/-- The tuples stand in the order of their indices. -/
theorem place_getElem_walk {radix length position : Nat}
    (inside : position < (walk radix length).length) :
    place radix 0 (walk radix length)[position] = position := by
  have whole := congrArg (·[position]?) (map_place_zero_walk radix length)
  rw [length_walk] at inside
  simpa [List.getElem?_eq_getElem, length_walk, inside] using whole

/-- A fitting tuple stands at its index. -/
theorem getElem?_walk_place {radix length : Nat} {digits : List Nat}
    (fits : Fits radix length digits) :
    (walk radix length)[place radix 0 digits]? = some digits := by
  obtain ⟨position, inside, rfl⟩ := List.getElem_of_mem (mem_walk.mpr fits)
  rw [place_getElem_walk inside, List.getElem?_eq_getElem inside]

/-- The index of a fitting tuple is below the number of tuples. -/
theorem place_lt {radix length : Nat} {digits : List Nat} (fits : Fits radix length digits) :
    place radix 0 digits < total radix length := by
  have member : place radix 0 digits ∈ (walk radix length).map (place radix 0) :=
    List.mem_map_of_mem (mem_walk.mpr fits)
  rwa [map_place_zero_walk, List.mem_range] at member

/-- The digits before a tuple are counted in units of the number of tuples. -/
theorem place_eq_add (radix index : Nat) (digits : List Nat) :
    place radix index digits = index * radix ^ digits.length + place radix 0 digits := by
  induction digits generalizing index with
  | nil => simp [place]
  | cons digit rest inductionHypothesis =>
    calc place radix index (digit :: rest)
        = (index * radix + digit) * radix ^ rest.length + place radix 0 rest :=
          inductionHypothesis (index * radix + digit)
      _ = index * radix ^ (rest.length + 1)
            + ((0 * radix + digit) * radix ^ rest.length + place radix 0 rest) := by ring
      _ = index * radix ^ (digit :: rest).length + place radix 0 (digit :: rest) := by
          rw [← inductionHypothesis (0 * radix + digit)]
          rfl

/-- The digits of a fitting tuple are those of its index in the radix, the first one being
the most significant. -/
theorem getElem?_of_place {radix length position : Nat} {digits : List Nat}
    (fits : Fits radix length digits) (inside : position < length) :
    digits[position]?
      = some (place radix 0 digits / radix ^ (length - 1 - position) % radix) := by
  obtain ⟨rfl, small⟩ := fits
  induction digits generalizing position with
  | nil => simp at inside
  | cons digit rest inductionHypothesis =>
    have restSmall : ∀ other ∈ rest, other < radix := fun other member =>
      small other (List.mem_cons_of_mem digit member)
    have first : digit < radix := small digit List.mem_cons_self
    have below : place radix 0 rest < radix ^ rest.length := place_lt ⟨rfl, restSmall⟩
    have whole : place radix 0 (digit :: rest)
        = digit * radix ^ rest.length + place radix 0 rest := by
      rw [← place_eq_add]
      simp [place]
    rw [whole, List.length_cons, Nat.add_sub_cancel]
    cases position with
    | zero =>
      have positive : 0 < radix ^ rest.length := by omega
      rw [Nat.sub_zero, List.getElem?_cons_zero, Nat.mul_comm,
        Nat.mul_add_div positive, Nat.div_eq_of_lt below, Nat.add_zero, Nat.mod_eq_of_lt first]
    | succ position =>
      have later : position < rest.length := by simpa using inside
      -- the first digit only adds multiples of the radix to the quotient
      have split : digit * radix ^ rest.length
          = radix ^ (rest.length - 1 - position) * (radix * (digit * radix ^ position)) := by
        have exponents : rest.length = rest.length - 1 - position + (1 + position) := by omega
        conv_lhs => rw [exponents, pow_add, pow_add, pow_one]
        ring
      have positive : 0 < radix ^ (rest.length - 1 - position) := Nat.pow_pos (by omega)
      have apart : rest.length - (position + 1) = rest.length - 1 - position := by omega
      rw [List.getElem?_cons_succ, inductionHypothesis restSmall later, apart, split,
        Nat.mul_add_div positive, Nat.mul_add_mod]

/-- A base up to 1 has the same power for all positive exponents. -/
theorem pow_min_one {base : Nat} (small : base ≤ 1) (exponent : Nat) :
    Nat.pow base (min exponent 1) = base ^ exponent := by
  rcases exponent with _ | exponent
  · rfl
  · have : base = 0 ∨ base = 1 := by omega
    rcases this with rfl | rfl <;> simp

/-- A power that is reported is the power itself, and a word. -/
theorem pow?_eq_some {base exponent count : Nat} (counted : Word.pow? base exponent = some count) :
    count = base ^ exponent ∧ base ^ exponent < Word.limit := by
  simp only [Word.pow?, Word.check?] at counted
  split at counted
  · next small =>
    rw [pow_min_one small] at counted
    split at counted
    · next word => exact ⟨(Option.some.inj counted).symm, word⟩
    · cases counted
  · split at counted
    · split at counted
      · next word => exact ⟨(Option.some.inj counted).symm, word⟩
      · cases counted
    · cases counted

/-- A base above 1 has powers that are words for exponents below the width only. -/
theorem lt_width_of_pow_lt {base exponent : Nat} (above : 1 < base)
    (word : base ^ exponent < Word.limit) : exponent < Word.width := by
  by_contra wide
  have least : Word.limit ≤ base ^ exponent := by
    calc Word.limit = 2 ^ Word.width := rfl
      _ ≤ 2 ^ exponent := Nat.pow_le_pow_right (by decide) (Nat.le_of_not_lt wide)
      _ ≤ base ^ exponent := Nat.pow_le_pow_left above exponent
  exact Nat.not_lt.mpr least word

/-- A power that is a word is reported: from the width on, only the bases 0 and 1 have
exponents whose power is one. -/
theorem pow?_of_lt {base exponent : Nat} (word : base ^ exponent < Word.limit) :
    Word.pow? base exponent = some (base ^ exponent) := by
  unfold Word.pow?
  split
  · next small => rw [pow_min_one small, check?_of_lt word]
  · next large =>
    have narrow : exponent < Word.width := lt_width_of_pow_lt (Nat.lt_of_not_le large) word
    rw [if_pos narrow]
    exact check?_of_lt word

/-- A number of tuples that is reported is the number of tuples, and a word. -/
theorem count?_eq_some {radix length count : Nat} (counted : count? radix length = some count) :
    count = total radix length ∧ total radix length < Word.limit := by
  unfold count? at counted
  split at counted
  · exact pow?_eq_some counted
  · cases counted

/-- Only tuples of a length that is not excessive are counted. -/
theorem length_lt_of_count? {radix length count : Nat}
    (counted : count? radix length = some count) : length < lengthLimit := by
  unfold count? at counted
  split at counted
  · next short => exact short
  · cases counted

/-- The number of tuples is reported if it is a word and the length is not excessive. -/
theorem count?_of_lt {radix length : Nat} (short : length < lengthLimit)
    (word : total radix length < Word.limit) : count? radix length = some (total radix length) := by
  rw [count?, if_pos short]
  exact pow?_of_lt word

end Nonlocal.Tuple
