import Nonlocal.Probability
import Nonlocal.Proofs.Box.Lookup
import Nonlocal.Proofs.Tuple.Sum

/-!
# Queries that are answered

In a shaped box every query with parties of the box and values in range is answered,
whatever the numbers are. Each query is a walk over tuples in which every step looks up
one cell; overwriting and inserting digits keep the tuples fitting, so no lookup fails,
and the count of the joint sum stays a word, since there are no more assignments to it
than rows.
-/

namespace Nonlocal.Box

section

variable {radix length : Nat} {digits positions values : List Nat}

/-- Overwriting with values of the range keeps a tuple fitting. -/
theorem overwrite_fits (fits : Tuple.Fits radix length digits)
    (inside : ∀ value ∈ values, value < radix) :
    Tuple.Fits radix length (overwrite digits positions values) := by
  induction positions generalizing digits values with
  | nil => simpa [overwrite] using fits
  | cons position rest inductionHypothesis =>
    cases values with
    | nil => simpa [overwrite] using fits
    | cons value later =>
      exact inductionHypothesis (fits.set (inside value List.mem_cons_self) position)
        fun other member => inside other (List.mem_cons_of_mem value member)

/-- Overwriting keeps the number of digits. -/
@[simp] theorem length_overwrite (digits positions values : List Nat) :
    (overwrite digits positions values).length = digits.length := by
  induction positions generalizing digits values with
  | nil => simp [overwrite]
  | cons position rest inductionHypothesis =>
    cases values with
    | nil => simp [overwrite]
    | cons value later => rw [overwrite, inductionHypothesis, List.length_set]

/-- Overwriting leaves the digits at other positions alone. -/
theorem overwrite_getElem? (values : List Nat) {party : Nat} (outside : party ∉ positions) :
    (overwrite digits positions values)[party]? = digits[party]? := by
  induction positions generalizing digits values with
  | nil => simp [overwrite]
  | cons position rest inductionHypothesis =>
    obtain ⟨elsewhere, later⟩ : party ≠ position ∧ party ∉ rest := by simpa using outside
    cases values with
    | nil => simp [overwrite]
    | cons value others =>
      rw [overwrite, inductionHypothesis others later, List.getElem?_set_ne (Ne.symm elsewhere)]

/-- What is overwritten everywhere does not show. -/
theorem overwrite_congr {other : List Nat} (sameLength : digits.length = other.length)
    (agree : ∀ party, party ∉ positions → digits[party]? = other[party]?)
    (covered : values.length = positions.length) :
    overwrite digits positions values = overwrite other positions values := by
  induction positions generalizing digits other values with
  | nil =>
    simp only [overwrite]
    exact List.ext_getElem? fun party => agree party (by simp)
  | cons position rest inductionHypothesis =>
    cases values with
    | nil => simp at covered
    | cons value later =>
      refine inductionHypothesis (by simpa using sameLength) ?_ (by simpa using covered)
      intro party outside
      rw [List.getElem?_set, List.getElem?_set, sameLength]
      split
      · rfl
      · next elsewhere => exact agree party (by simp [outside, Ne.symm elsewhere])

end

/-- Entries that are summed out do not show in the sum. -/
theorem summedOut_congr {α : Type} [Zero α] [Add α] {box : Box α} {positions left right : List Nat}
    (input : List Nat) (sameLength : left.length = right.length)
    (agree : ∀ party, party ∉ positions → left[party]? = right[party]?) :
    box.summedOut input left positions = box.summedOut input right positions := by
  apply Tuple.foldTuples_congr
  intro values fits total
  rw [overwrite_congr sameLength agree fits.1]

/-- Parties that exist and are listed once may be pending. -/
theorem ensurePending_eq_ok {parties : Nat} {listed pending : List Nat}
    (present : ∀ party ∈ pending, party < parties) (distinct : (listed ++ pending).Nodup) :
    ensurePending parties listed pending = .ok () := by
  induction pending generalizing listed with
  | nil => rfl
  | cons party rest inductionHypothesis =>
    have here : party < parties := present party List.mem_cons_self
    have fresh : party ∉ listed := by
      intro member
      exact (List.nodup_append.mp distinct).2.2 party member party List.mem_cons_self rfl
    have passes : (parties ≤ party || listed.contains party) = false := by
      simpa [fresh] using here
    rw [ensurePending, passes]
    refine inductionHypothesis (fun other member => ?_) ?_
    · exact present other (List.mem_cons_of_mem party member)
    · rwa [List.append_assoc, List.singleton_append]

namespace Shaped

variable {α : Type} {box : Box α} (shaped : box.Shaped)

include shaped

/-- One party less is still counted in words. -/
theorem sub_partyCount {ε : Type} :
    (Word.sub box.partyCount 1 : Attempt ε Nat) = .ok (box.partyCount - 1) :=
  if_pos shaped.inhabited

/-- The assignments to the inputs of the others are counted in words. -/
theorem total_others_lt : Tuple.total box.inputRange (box.partyCount - 1) < Word.limit := by
  refine lt_of_le_of_lt ?_ shaped.rowWords
  exact Nat.pow_le_pow_right shaped.inputRanged (Nat.sub_le _ _)

/-- A lookup of a query with fitting tuples finds a cell. -/
theorem exists_queryProb {input output : List Nat}
    (inputFits : Tuple.Fits box.inputRange box.partyCount input)
    (outputFits : Tuple.Fits box.outputRange box.partyCount output) :
    ∃ value, box.queryProb input output = .ok value := by
  obtain ⟨row, -, value, -, found⟩ := shaped.exists_prob inputFits outputFits
  exact ⟨value, by simp [queryProb, found, Attempt.ofExcept, Attempt.mapRefusal]⟩

section

variable [Zero α] [Add α]

/-- Parties can be summed out. -/
theorem exists_summedOut {input output : List Nat} (positions : List Nat)
    (inputFits : Tuple.Fits box.inputRange box.partyCount input)
    (outputFits : Tuple.Fits box.outputRange box.partyCount output) :
    ∃ sum, box.summedOut input output positions = .ok sum := by
  apply Tuple.exists_foldTuples
  intro values fits total
  obtain ⟨value, found⟩ := shaped.exists_queryProb inputFits (overwrite_fits outputFits fits.2)
  exact Attempt.exists_bind found ⟨_, rfl⟩

/-- A query on known outputs is answered. -/
theorem exists_normalisedProb [Div α] [BEq α] {input output : List Nat} {candidate : Nat}
    {rest : List Nat} (inputFits : Tuple.Fits box.inputRange box.partyCount input)
    (outputFits : Tuple.Fits box.outputRange box.partyCount output)
    (present : ∀ party ∈ candidate :: rest, party < box.partyCount)
    (distinct : (candidate :: rest).Nodup) :
    ∃ p, box.normalisedProb input output (candidate :: rest) = .ok p := by
  have passes : ensurePending box.partyCount [] (candidate :: rest) = .ok () :=
    ensurePending_eq_ok present distinct
  obtain ⟨numerator, summed⟩ := shaped.exists_summedOut rest inputFits outputFits
  obtain ⟨denominator, added⟩ : ∃ denominator, foldValues
      (fun total value => do
        let part ← box.summedOut input (output.set candidate value) rest
        pure (total + part))
      box.outputRange 0 0 = .ok denominator := by
    rw [Attempt.foldValues_eq_foldlM, ← List.range_eq_range']
    apply Attempt.exists_foldlM
    intro value member total
    obtain ⟨part, found⟩ := shaped.exists_summedOut rest inputFits
      (outputFits.set (List.mem_range.mp member) candidate)
    exact Attempt.exists_bind found ⟨_, rfl⟩
  exact Attempt.exists_bind passes (Attempt.exists_bind summed (Attempt.exists_bind added ⟨_, rfl⟩))

omit [Zero α] in
/-- For one input tuple the joint sum goes through the outputs of the others. -/
theorem exists_foldTuples_insertAt {input : List Nat} {party told : Nat}
    (inputFits : Tuple.Fits box.inputRange box.partyCount input)
    (present : party < box.partyCount) (inside : told < box.outputRange) (start : α) :
    ∃ sum, Tuple.foldTuples box.outputRange (box.partyCount - 1)
      (fun total otherOutputs => do
        let fullOutput ← Tuple.insertAt otherOutputs party told
        let probability ← box.queryProb input fullOutput
        pure (total + probability))
      start = .ok sum := by
  have whole : box.partyCount - 1 + 1 = box.partyCount := by omega
  have room : party ≤ box.partyCount - 1 := by omega
  apply Tuple.exists_foldTuples
  intro otherOutputs fits total
  obtain ⟨value, found⟩ := shaped.exists_queryProb inputFits (whole ▸ fits.insertIdx inside room)
  exact Attempt.exists_bind (Tuple.insertAt_eq_ok (fits.1 ▸ room) told)
    (Attempt.exists_bind found ⟨_, rfl⟩)

/-- The joint sum of a party's input and output is formed. -/
theorem exists_jointSum {party asked told : Nat} (present : party < box.partyCount)
    (askedInside : asked < box.inputRange) (toldInside : told < box.outputRange) :
    ∃ sum, box.jointSum party asked told = .ok sum := by
  have whole : box.partyCount - 1 + 1 = box.partyCount := by omega
  have room : party ≤ box.partyCount - 1 := by omega
  rw [jointSum, shaped.sub_partyCount]
  refine Tuple.exists_foldTuples_count _ Word.limit 0 shaped.total_others_lt ?_
  intro otherInputs fits total count below
  obtain ⟨sum, summed⟩ := shaped.exists_foldTuples_insertAt
    (whole ▸ fits.insertIdx askedInside room) present toldInside total
  have next : (Word.add count 1 : Attempt QueryError Nat) = .ok (count + 1) := if_pos below
  have placed : (Tuple.insertAt otherInputs party asked : Attempt QueryError (List Nat))
      = .ok (otherInputs.insertIdx party asked) := Tuple.insertAt_eq_ok (fits.1 ▸ room) asked
  exact ⟨sum, (Attempt.bind_eq_ok_iff _ _ _).mpr ⟨_, next, (Attempt.bind_eq_ok_iff _ _ _).mpr
    ⟨_, placed, (Attempt.bind_eq_ok_iff _ _ _).mpr ⟨_, summed, rfl⟩⟩⟩⟩

/-- A query on one party is answered. -/
theorem exists_reducedProb [Div α] [Scalar α] {party asked told : Nat}
    (present : party < box.partyCount) (askedInside : asked < box.inputRange)
    (toldInside : told < box.outputRange) : ∃ p, box.reducedProb party asked told = .ok p := by
  obtain ⟨⟨total, assignments⟩, summed⟩ := shaped.exists_jointSum present askedInside toldInside
  have asking : box.ensureValue .input asked = .ok () := if_pos askedInside
  have telling : box.ensureValue .output told = .ok () := if_pos toldInside
  rw [reducedProb, if_pos present]
  exact Attempt.exists_bind asking (Attempt.exists_bind telling
    (Attempt.exists_bind summed ⟨_, rfl⟩))

end

end Shaped

end Nonlocal.Box
