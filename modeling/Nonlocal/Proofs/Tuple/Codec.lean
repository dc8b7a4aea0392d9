import Mathlib.Algebra.BigOperators.Fin
import Nonlocal.Proofs.Tuple.Index

/-!
# One order for tuples and indices

Encoding reads the digits from the left, decoding takes an index apart from the right, and
the walk counts up like an odometer. All three go by the number that the digits write. A
tuple is encoded exactly if this number is a word, whether or not there are more tuples of
its length than words; an index beyond the last tuple is decoded as what is left of it.
-/

namespace Nonlocal.Tuple

variable {radix length position index result : Nat} {digits : List Nat}

/-- One more digit is taken if the index stays a word. -/
theorem mul?_bind_add? (index radix digit : Nat) :
    (Word.mul? index radix).bind (Word.add? · digit) = Word.check? (index * radix + digit) := by
  by_cases word : index * radix < Word.limit
  · rw [Word.mul?, check?_of_lt word]
    rfl
  · have beyond : ¬ index * radix + digit < Word.limit := by omega
    simp [Word.mul?, Word.check?, word, beyond]

/-- Further digits never make the index smaller. -/
theorem le_place (positive : 0 < radix) (index : Nat) (digits : List Nat) :
    index ≤ place radix index digits := by
  induction digits generalizing index with
  | nil => exact Nat.le_refl index
  | cons digit rest inductionHypothesis =>
    calc index ≤ index * radix := Nat.le_mul_of_pos_right index positive
      _ ≤ index * radix + digit := Nat.le_add_right _ _
      _ ≤ place radix index (digit :: rest) := inductionHypothesis _

/-- From a word on, digits are encoded exactly if all are below the radix and the number that
they write is a word. No beginning outgrows its word unless the whole does. -/
theorem encodeFrom_eq_ok_iff (word : index < Word.limit) :
    encodeFrom radix length position index digits = .ok result
      ↔ (∀ digit ∈ digits, digit < radix) ∧ place radix index digits = result
        ∧ result < Word.limit := by
  induction digits generalizing position index with
  | nil =>
    simp only [encodeFrom, Except.ok.injEq, List.not_mem_nil, false_imp_iff, implies_true,
      true_and]
    exact ⟨fun same => ⟨same, same ▸ word⟩, fun spec => spec.1⟩
  | cons digit rest inductionHypothesis =>
    rw [encodeFrom, mul?_bind_add?, List.forall_mem_cons]
    by_cases inside : digit < radix
    · rw [if_pos inside]
      by_cases room : index * radix + digit < Word.limit
      · rw [check?_of_lt room]
        simp only [inductionHypothesis room, inside, true_and]
        rfl
      · have outgrown := le_place (Nat.zero_lt_of_lt inside) (index * radix + digit) rest
        simp only [Word.check?, if_neg room, reduceCtorEq, false_iff, not_and]
        rintro - rfl
        exact Nat.not_lt.mpr ((Nat.le_of_not_lt room).trans outgrown)
    · simp [inside]

/-- A tuple is encoded exactly if its digits are below the radix and write a word. -/
theorem encode_eq_ok_iff :
    encode radix digits = .ok result
      ↔ (∀ digit ∈ digits, digit < radix) ∧ place radix 0 digits = result
        ∧ result < Word.limit :=
  encodeFrom_eq_ok_iff (by decide)

/-- There are more tuples of thirty digits than words, but zeros in front take no room. -/
example : encode 10 (List.replicate 29 0 ++ [7]) = .ok 7 := by decide

/-- The number that digits write is the sum of the digits, each times a power of the radix that
grows from right to left. -/
theorem place_eq_sum (radix : Nat) (digits : List Nat) :
    place radix 0 digits
      = ∑ position : Fin digits.length,
          digits[position] * radix ^ (digits.length - 1 - position) := by
  induction digits with
  | nil => rfl
  | cons digit rest inductionHypothesis =>
    have further : ∀ position : Fin rest.length,
        rest.length - (position + 1) = rest.length - 1 - position := by omega
    calc place radix 0 (digit :: rest)
        = digit * radix ^ rest.length + place radix 0 rest := by
          rw [← place_eq_add]
          simp [place]
      _ = _ := by
          rw [inductionHypothesis]
          simp [Fin.sum_univ_succ, further]

/-- Fitting tuples that write the same number are the same, since each of them stands at its
index in the walk. -/
theorem eq_of_place_eq {first second : List Nat} (fits : Fits radix length first)
    (fits' : Fits radix length second) (same : place radix 0 first = place radix 0 second) :
    first = second := by
  have stands := getElem?_walk_place fits
  rw [same, getElem?_walk_place fits'] at stands
  exact (Option.some.inj stands).symm

/-- Digits are put in front of those that are there, and nothing else is. -/
theorem decodeOnto_eq_append (radix length index : Nat) (digits : List Nat) :
    decodeOnto radix length index digits = decodeOnto radix length index [] ++ digits := by
  induction length generalizing index digits with
  | zero => rfl
  | succ length inductionHypothesis =>
    rw [decodeOnto, decodeOnto, inductionHypothesis (index / radix) (index % radix :: digits),
      inductionHypothesis (index / radix) [index % radix], List.append_assoc]
    rfl

/-- In a radix above 1 the last digit is the remainder, and the others are those of the
quotient. -/
theorem decode_succ (above : 1 < radix) (length index : Nat) :
    decode radix (length + 1) index = decode radix length (index / radix) ++ [index % radix] := by
  have large : ¬ radix ≤ 1 := Nat.not_le.mpr above
  rw [decode, decode, if_neg large, if_neg large, decodeOnto, decodeOnto_eq_append]

/-- A decoded tuple fits, since remainders are below the radix. -/
theorem fits_decode (positive : 0 < radix) (length index : Nat) :
    Fits radix length (decode radix length index) := by
  by_cases small : radix ≤ 1
  · rw [decode, if_pos small]
    exact ⟨List.length_replicate, fun digit member => List.eq_of_mem_replicate member ▸ positive⟩
  · induction length generalizing index with
    | zero => exact ⟨by simp [decode, decodeOnto], by simp [decode, decodeOnto]⟩
    | succ length inductionHypothesis =>
      obtain ⟨long, inside⟩ := inductionHypothesis (index / radix)
      rw [decode_succ (Nat.lt_of_not_le small)]
      refine ⟨by simp [long], List.forall_mem_append.mpr ⟨inside, ?_⟩⟩
      exact List.forall_mem_singleton.mpr (Nat.mod_lt index positive)

/-- A decoded tuple writes what is left of the index once whole rounds of the walk are taken
away. -/
theorem place_decode (positive : 0 < radix) (length index : Nat) :
    place radix 0 (decode radix length index) = index % radix ^ length := by
  by_cases small : radix ≤ 1
  · obtain rfl : radix = 1 := Nat.le_antisymm small positive
    have below := place_lt (fits_decode Nat.one_pos length index)
    rw [total, Nat.pow_eq, Nat.one_pow] at below
    rw [Nat.one_pow, Nat.mod_one, Nat.lt_one_iff.mp below]
  · induction length generalizing index with
    | zero => simp [decode, small, decodeOnto, place, Nat.mod_one]
    | succ length inductionHypothesis =>
      have last : place radix 0 (decode radix length (index / radix) ++ [index % radix])
          = place radix 0 (decode radix length (index / radix)) * radix + index % radix := by
        simp [place]
      rw [decode_succ (Nat.lt_of_not_le small), last, inductionHypothesis, Nat.pow_succ',
        Nat.mod_mul, Nat.mul_comm, Nat.add_comm]

/-- Decoding what digits write gives the digits back. -/
theorem decode_place (fits : Fits radix length digits) :
    decode radix length (place radix 0 digits) = digits := by
  obtain ⟨long, inside⟩ := id fits
  cases digits with
  | nil =>
    obtain rfl := long
    unfold decode
    split <;> rfl
  | cons digit rest =>
    have positive : 0 < radix := Nat.zero_lt_of_lt (inside digit List.mem_cons_self)
    apply eq_of_place_eq (fits_decode positive length _) fits
    rw [place_decode positive]
    exact Nat.mod_eq_of_lt (place_lt fits)

/-- Single steps meet the tuples of the walk, and nothing after the last of them. -/
theorem later?_some (radix steps : Nat) (digits : List Nat) :
    later? radix steps (some digits) = (walkFrom radix digits)[steps]? := by
  induction steps generalizing digits with
  | zero =>
    rw [walkFrom]
    split <;> rfl
  | succ steps inductionHypothesis =>
    rw [later?]
    cases advanced : next? radix digits with
    | none =>
      rw [walkFrom_last advanced]
      cases steps <;> rfl
    | some following =>
      rw [inductionHypothesis, walkFrom_step advanced]
      rfl

/-- So they do from the first tuple, if there is one. -/
theorem later?_first? (radix length steps : Nat) :
    later? radix steps (first? radix length) = (walk radix length)[steps]? := by
  unfold walk
  cases first? radix length with
  | none => cases steps <;> rfl
  | some digits => exact later?_some radix steps digits

/-- The stations of a walk are where it stands after each number of steps. -/
theorem stations_eq_map_later? (radix count : Nat) (current : Option (List Nat)) :
    stations radix count current
      = (List.range count).map fun steps => later? radix steps current := by
  induction count generalizing current with
  | zero => rfl
  | succ count inductionHypothesis =>
    have onward (steps : Nat) :
        later? radix steps (current.bind (next? radix)) = later? radix (steps + 1) current := by
      cases current with
      | none => cases steps <;> rfl
      | some digits => rfl
    rw [stations, inductionHypothesis, List.range_succ_eq_map, List.map_cons, List.map_map]
    simp only [onward]
    cases current <;> rfl

/-- From the first tuple they are a part of the walk, followed by nothing. -/
theorem stations_first? (radix length count : Nat) :
    stations radix count (first? radix length)
      = (List.range count).map fun steps => (walk radix length)[steps]? := by
  simp only [stations_eq_map_later?, later?_first?]

/-- What encoding, decoding and the walk have to agree on for the tuples of a length. -/
structure Numbered (radix length : Nat) : Prop where
  encoded : ∀ digits, digits.length = length → ∀ index, encode radix digits = .ok index
    ↔ (∀ digit ∈ digits, digit < radix)
      ∧ index = ∑ position : Fin digits.length,
          digits[position] * radix ^ (digits.length - 1 - position)
      ∧ index < Word.limit
  decoded : ∀ digits, digits.length = length → ∀ index, encode radix digits = .ok index →
    decode radix length index = digits
  encodedAgain : 1 ≤ radix → ∀ index < Word.limit,
    encode radix (decode radix length index) = .ok (index % radix ^ length)
  met : ∀ digits, digits ∈ walk radix length
    ↔ digits.length = length ∧ ∀ digit ∈ digits, digit < radix
  once : (walk radix length).Nodup
  counted : (walk radix length).length = radix ^ length
  stepped : ∀ steps, later? radix steps (first? radix length) = (walk radix length)[steps]?
  placed : ∀ index < radix ^ length,
    (walk radix length)[index]? = some (decode radix length index)
  ascending : ∀ index < Word.limit, ∀ digits, (walk radix length)[index]? = some digits →
    encode radix digits = .ok index

/-- The tuple at an index in the walk writes that index. -/
theorem place_of_getElem?_walk (stands : (walk radix length)[index]? = some digits) :
    place radix 0 digits = index := by
  obtain ⟨inside, rfl⟩ := List.getElem?_eq_some_iff.mp stands
  exact place_getElem_walk inside

/-- An index below the number of tuples is that of the tuple that it is decoded as. -/
theorem getElem?_walk (below : index < radix ^ length) :
    (walk radix length)[index]? = some (decode radix length index) := by
  have inside : index < (walk radix length).length := by rwa [length_walk]
  have stands := List.getElem?_eq_getElem inside
  have fits : Fits radix length (walk radix length)[index] := mem_walk.mp (List.getElem_mem inside)
  rw [stands, ← decode_place fits, place_getElem_walk inside]

/-- Encoding, decoding and the walk agree, in every radix and for every length.

A tuple has an index if its digits are below the radix and the number that they write is a
word, also where not all tuples of its length have one, and decoding the index gives the tuple
back. Any index is decoded as the tuple of what is left of it modulo the number of tuples. The
walk meets all tuples with digits below the radix and no others, each once, stops after them,
and meets them at their indices. -/
theorem numbered (radix length : Nat) : Numbered radix length where
  encoded digits _ index := by
    rw [encode_eq_ok_iff, ← place_eq_sum, eq_comm]
  decoded digits long index isEncoded := by
    obtain ⟨inside, rfl, -⟩ := encode_eq_ok_iff.mp isEncoded
    exact decode_place ⟨long, inside⟩
  encodedAgain positive index word := by
    rw [encode_eq_ok_iff]
    refine ⟨(fits_decode positive length index).2, place_decode positive length index, ?_⟩
    exact (Nat.mod_le index _).trans_lt word
  met _ := mem_walk
  once := nodup_walk radix length
  counted := length_walk radix length
  stepped := later?_first? radix length
  placed _ := getElem?_walk
  ascending index word digits stands := by
    have fits : Fits radix length digits := mem_walk.mp (List.mem_of_getElem? stands)
    exact encode_eq_ok_iff.mpr ⟨fits.2, place_of_getElem?_walk stands, word⟩

end Nonlocal.Tuple
