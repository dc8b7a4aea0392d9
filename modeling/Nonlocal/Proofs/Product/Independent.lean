import Mathlib.Algebra.BigOperators.Field
import Mathlib.Algebra.BigOperators.Fin
import Mathlib.Algebra.Order.BigOperators.Ring.Finset
import Nonlocal.Proofs.Box.Completions
import Nonlocal.Proofs.Product.Weights
import Nonlocal.Proofs.Validity.Exact

/-!
# The parties of a product box are independent

The shares of a party sum to 1, so summing its output out of a product removes its factor
and nothing else. From this one fact follows all the rest: the rows sum to 1, no input
shows in the outputs of the others, the marginal of a party is its share, and what is
already known of others cancels in a later query, unless it is impossible.
-/

namespace Nonlocal.Product

variable {weights : Weights} {inputRange outputRange party : Nat} {input output : List Nat}

/-- No share is negative. -/
theorem share_nonneg (weights : Weights) (party asked told : Nat) :
    0 ≤ share weights party asked told :=
  div_nonneg (Nat.cast_nonneg _) (Nat.cast_nonneg _)

/-- No product of shares is negative. -/
theorem joint_nonneg (weights : Weights) (input output : List Nat) :
    0 ≤ joint weights input output :=
  Finset.prod_nonneg fun _ _ => share_nonneg ..

/-- A party that is not among others is a factor of its own in a product over what is left. -/
theorem prod_not_mem {parties candidate : Nat} {rest : List Nat} {factor : Nat → Rat}
    (present : candidate < parties) (fresh : candidate ∉ rest) :
    ∏ party ∈ Finset.range parties with party ∉ rest, factor party
      = factor candidate
        * ∏ party ∈ Finset.range parties with party ∉ candidate :: rest, factor party := by
  have here : candidate ∈ (Finset.range parties).filter (· ∉ rest) :=
    Finset.mem_filter.mpr ⟨Finset.mem_range.mpr present, fresh⟩
  rw [← Finset.mul_prod_erase _ _ here]
  congr 1
  refine Finset.prod_congr ?_ fun _ _ => rfl
  ext party
  simp only [Finset.mem_erase, Finset.mem_filter, List.mem_cons, not_or]
  tauto

namespace Regular

variable (regular : Regular weights inputRange outputRange)

include regular

/-- The weights of a list have a positive sum. -/
theorem sum_listed_pos {asked : Nat} (present : party < weights.length)
    (inside : asked < inputRange) : 0 < (listed weights party asked).sum := by
  obtain ⟨ofParty, member, -, -, isListed⟩ := regular.listed_spec present inside
  exact regular.possible ofParty member _ isListed

/-- The shares of a party sum to 1. -/
theorem sum_share {asked : Nat} (present : party < weights.length) (inside : asked < inputRange) :
    ∑ told ∈ Finset.range outputRange, share weights party asked told = 1 := by
  obtain ⟨ofParty, member, -, -, isListed⟩ := regular.listed_spec present inside
  have sameLength := regular.outputs ofParty member _ isListed
  have positive : ((listed weights party asked).sum : Rat) ≠ 0 :=
    Nat.cast_ne_zero.mpr (regular.sum_listed_pos present inside).ne'
  have summed : ∑ told ∈ Finset.range outputRange, weight weights party asked told
      = (listed weights party asked).sum := by
    rw [← sameLength, Finset.sum_range, ← Fin.sum_univ_getElem]
    simp [weight]
  simp only [share]
  rw [← Finset.sum_div, ← Nat.cast_sum, summed, div_self positive]

/-- A share is positive exactly if its weight is. -/
theorem share_eq_zero_iff {asked told : Nat} (present : party < weights.length)
    (inside : asked < inputRange) :
    share weights party asked told = 0 ↔ ¬ 0 < weight weights party asked told := by
  have positive := regular.sum_listed_pos present inside
  rw [share, div_eq_zero_iff, Nat.cast_eq_zero, Nat.cast_eq_zero]
  omega

/-- The table has its shape. -/
theorem shaped : (table weights inputRange outputRange).Shaped := by
  have rectangular : (table weights inputRange outputRange).Rectangular :=
    Box.rectangular_tabulated (by simp [Identifier.numbered])
  exact {
    balanced := rectangular.balanced
    inhabited := (table_partyCount ..).symm ▸ regular.inhabited
    inputRanged := regular.inputRanged
    outputRanged := regular.outputRanged
    rows := rectangular.rows
    columns := rectangular.columns
    rowWords := by simpa using regular.rowWords
    columnWords := by simpa using regular.columnWords }

/-- The likelihood of a tuple is the product of the shares. -/
theorem likelihood_eq (inputFits : Tuple.Fits inputRange weights.length input)
    (outputFits : Tuple.Fits outputRange weights.length output) :
    (table weights inputRange outputRange).likelihood input output
      = joint weights input output := by
  have parties : (Identifier.numbered "x" weights.length).length = weights.length :=
    table_partyCount weights inputRange outputRange
  exact Box.likelihood_tabulated regular.shaped (by rwa [parties]) (by rwa [parties])

/-- Summing over some of the digits of the outputs removes the factors of these parties. -/
theorem sum_settled (settled : Nat → Prop) [DecidablePred settled] (told : Nat → Nat)
    (inputFits : Tuple.Fits inputRange weights.length input)
    (inside : ∀ party < weights.length, settled party → told party < outputRange) :
    ∑ output ∈ Tuple.tuples outputRange weights.length with
        ∀ party < weights.length, settled party → output[party]? = some (told party),
        (table weights inputRange outputRange).likelihood input output
      = ∏ party ∈ Finset.range weights.length with settled party,
          share weights party (Tuple.digitAt input party) (told party) := by
  rw [Finset.prod_filter, ← Finset.prod_congr rfl fun party present => ?factor,
    ← Tuple.sum_prod_settled settled told inside fun party =>
      share weights party (Tuple.digitAt input party)]
  · apply Finset.sum_congr rfl
    intro output member
    exact regular.likelihood_eq inputFits
      (Tuple.mem_tuples.mp (Finset.mem_of_mem_filter output member))
  case factor =>
    have here := Finset.mem_range.mp present
    rw [regular.sum_share here (inputFits.getElem?_eq_digitAt here).2]

/-- Whatever a party is asked, summing its answers out leaves the product over the others. -/
theorem sum_likelihood_set (inputFits : Tuple.Fits inputRange weights.length input)
    (outputFits : Tuple.Fits outputRange weights.length output) (present : party < weights.length) :
    ∑ told ∈ Finset.range outputRange,
        (table weights inputRange outputRange).likelihood input (output.set party told)
      = ∏ other ∈ (Finset.range weights.length).erase party,
          share weights other (Tuple.digitAt input other) (Tuple.digitAt output other) := by
  have split (told : Nat) (member : told ∈ Finset.range outputRange) :
      (table weights inputRange outputRange).likelihood input (output.set party told)
        = share weights party (Tuple.digitAt input party) told
          * ∏ other ∈ (Finset.range weights.length).erase party,
              share weights other (Tuple.digitAt input other) (Tuple.digitAt output other) := by
    have inOutput : party < output.length := outputFits.1.symm ▸ present
    rw [regular.likelihood_eq inputFits (outputFits.set (Finset.mem_range.mp member) party), joint,
      ← Finset.mul_prod_erase _ _ (Finset.mem_range.mpr present),
      Tuple.digitAt_of_getElem? (List.getElem?_set_self inOutput)]
    congr 1
    apply Finset.prod_congr rfl
    intro other others
    rw [Tuple.digitAt_set_ne (Finset.ne_of_mem_erase others)]
  rw [Finset.sum_congr rfl split, ← Finset.sum_mul,
    regular.sum_share present (inputFits.getElem?_eq_digitAt present).2, one_mul]

/-- A product box consists of exact distributions and is exactly non-signalling. -/
theorem exact : (table weights inputRange outputRange).Exact where
  shaped := regular.shaped
  nonneg := by
    apply Box.likelihood_nonneg
    intro row rowMember cell member
    obtain ⟨input, -, rfl⟩ := List.mem_map.mp rowMember
    obtain ⟨output, -, rfl⟩ := List.mem_map.mp member
    exact joint_nonneg weights input output
  whole input fits := by
    rw [table_partyCount, table_inputRange] at fits
    have all := regular.sum_settled (fun _ => False) (fun _ => 0) fits (by simp)
    simpa using all
  silent input output party value inputFits outputFits present inside := by
    rw [table_partyCount] at inputFits outputFits present
    rw [table_inputRange] at inputFits inside
    rw [table_outputRange] at outputFits ⊢
    rw [regular.sum_likelihood_set (inputFits.set inside party) outputFits present,
      regular.sum_likelihood_set inputFits outputFits present]
    apply Finset.prod_congr rfl
    intro other others
    rw [Tuple.digitAt_set_ne (Finset.ne_of_mem_erase others)]

/-- A product box is valid at tolerance 0. -/
theorem valid : Validity.validate (table weights inputRange outputRange) 0 = .ok () :=
  Validity.validate_of_exact regular.exact (Box.named_of_numbered rfl rfl)
    (by simpa using regular.counted)

/-- The marginal of a party is its share, whatever the others are asked. -/
theorem reducedProb_eq {asked told : Nat} (present : party < weights.length)
    (askedInside : asked < inputRange) (toldInside : told < outputRange) :
    (table weights inputRange outputRange).reducedProb party asked told
      = .ok (share weights party asked told) := by
  have whole : weights.length - 1 + 1 = weights.length := by omega
  have room : party ≤ weights.length - 1 := by omega
  have ofOthers (otherInputs : List Nat)
      (member : otherInputs ∈ Tuple.tuples inputRange (weights.length - 1)) :
      ∑ otherOutputs ∈ Tuple.tuples outputRange (weights.length - 1),
          (table weights inputRange outputRange).likelihood (otherInputs.insertIdx party asked)
            (otherOutputs.insertIdx party told)
        = share weights party asked told := by
    have inputsFit := Tuple.mem_tuples.mp member
    have fits := whole ▸ inputsFit.insertIdx askedInside room
    have asking : Tuple.digitAt (otherInputs.insertIdx party asked) party = asked :=
      Tuple.digitAt_of_getElem? (by simp [List.getElem?_insertIdx_self, inputsFit.1, room])
    have summed := regular.sum_settled (· = party) (fun _ => told) fits fun _ _ _ => toldInside
    rw [Finset.filter_eq' _ party, if_pos (Finset.mem_range.mpr present), Finset.prod_singleton,
      asking] at summed
    rw [Tuple.sum_insertIdx toldInside room, whole, ← summed]
    refine Finset.sum_congr (Finset.filter_congr fun output _ => ?_) fun _ _ => rfl
    exact ⟨fun found other _ here => here ▸ found, fun all => all party present rfl⟩
  have assignments : (Tuple.total inputRange (weights.length - 1) : Rat) ≠ 0 :=
    Nat.cast_ne_zero.mpr (Nat.pow_pos regular.inputRanged).ne'
  rw [regular.shaped.reducedProb_eq (by simpa using present) askedInside toldInside,
    table_partyCount, table_inputRange, table_outputRange]
  congr 1
  rw [div_eq_iff assignments]
  refine (Finset.sum_congr rfl ofOthers).trans ?_
  rw [Finset.sum_const, Tuple.card_tuples, nsmul_eq_mul, mul_comm]

/-- The likelihood of what is known of some parties is the product of their shares. -/
theorem sum_matching (inputFits : Tuple.Fits inputRange weights.length input)
    (outputFits : Tuple.Fits outputRange weights.length output) (positions : List Nat) :
    ∑ other ∈ (table weights inputRange outputRange).matching positions output,
        (table weights inputRange outputRange).likelihood input other
      = ∏ party ∈ Finset.range weights.length with party ∉ positions,
          share weights party (Tuple.digitAt input party) (Tuple.digitAt output party) := by
  have known (party : Nat) (present : party < weights.length) :=
    outputFits.getElem?_eq_digitAt present
  rw [← regular.sum_settled (· ∉ positions) (Tuple.digitAt output) inputFits
    fun party present _ => (known party present).2]
  simp only [Box.matching, table_partyCount, table_outputRange]
  refine Finset.sum_congr (Finset.filter_congr fun other _ => ?_) fun _ _ => rfl
  exact forall₂_congr fun party present => imp_congr_right fun _ => by rw [(known party present).1]

/-- A later query answers with the share of the candidate, unless what is known of the others
is impossible. -/
theorem normalisedProb_eq {candidate : Nat} {rest : List Nat}
    (inputFits : Tuple.Fits inputRange weights.length input)
    (sameLength : output.length = weights.length)
    (present : ∀ party ∈ candidate :: rest, party < weights.length)
    (distinct : (candidate :: rest).Nodup)
    (inside : ∀ party, party ∉ rest → ∀ value, output[party]? = some value → value < outputRange) :
    (table weights inputRange outputRange).normalisedProb input output (candidate :: rest)
      = .ok (if ∀ party < weights.length, party ∉ candidate :: rest →
            0 < weight weights party (Tuple.digitAt input party) (Tuple.digitAt output party)
          then share weights candidate (Tuple.digitAt input candidate)
            (Tuple.digitAt output candidate)
          else 0) := by
  obtain ⟨completed, fits, agree⟩ := Box.exists_completion regular.outputRanged inside
  rw [sameLength] at fits
  have entry {party : Nat} (outside : party ∉ rest) :
      Tuple.digitAt output party = Tuple.digitAt completed party := by
    rw [Tuple.digitAt, Tuple.digitAt, agree party outside]
  have fresh : candidate ∉ rest := (List.nodup_cons.mp distinct).1
  have possible : (∏ party ∈ Finset.range weights.length with party ∉ candidate :: rest,
        share weights party (Tuple.digitAt input party) (Tuple.digitAt completed party)) ≠ 0
      ↔ ∀ party < weights.length, party ∉ candidate :: rest →
        0 < weight weights party (Tuple.digitAt input party) (Tuple.digitAt output party) := by
    simp only [Finset.prod_ne_zero_iff, Finset.mem_filter, Finset.mem_range, and_imp]
    refine forall₃_congr fun party isParty outside => ?_
    have asked := (inputFits.getElem?_eq_digitAt isParty).2
    rw [entry fun member => outside (List.mem_cons_of_mem candidate member), Ne,
      regular.share_eq_zero_iff isParty asked, not_not]
  have answered := regular.shaped.normalisedProb_completed (by simpa using inputFits)
    (by simpa using fits) (by simpa using present) distinct (by simpa using sameLength)
    (fun party outside => (agree party outside).symm) (.refl rest)
  rw [answered, regular.sum_matching inputFits fits, regular.sum_matching inputFits fits,
    prod_not_mem (present candidate List.mem_cons_self) fresh, entry fresh]
  split
  · next known => rw [mul_div_cancel_right₀ _ (possible.mpr known)]
  · next known => rw [not_ne_iff.mp (mt possible.mp known), div_zero]

end Regular

/-- Product boxes are valid and factor. For regular weights the construction succeeds and its
box is valid at tolerance 0. The marginal of each party is its share. A later query answers
with the share of its candidate if all outputs that are known of parties that are not pending
have positive weights, and with 0 otherwise; the entries of the other pending parties do not
count. -/
theorem product_factors {ε : Type} {weights : Weights} {inputRange outputRange : Nat}
    (regular : Regular weights inputRange outputRange) :
    ∃ built : Box Rat,
      (box weights inputRange outputRange : Attempt ε (Box Rat)) = .ok built
      ∧ Validity.validate built 0 = .ok ()
      ∧ (∀ party asked told, party < weights.length → asked < inputRange → told < outputRange →
        built.reducedProb party asked told = .ok (share weights party asked told))
      ∧ ∀ input output candidate rest, Tuple.Fits inputRange weights.length input →
        output.length = weights.length →
        (∀ party ∈ candidate :: rest, party < weights.length) → (candidate :: rest).Nodup →
        (∀ party, party ∉ rest → ∀ value, output[party]? = some value → value < outputRange) →
        built.normalisedProb input output (candidate :: rest)
          = .ok (if ∀ party < weights.length, party ∉ candidate :: rest →
                0 < weight weights party (Tuple.digitAt input party) (Tuple.digitAt output party)
              then share weights candidate (Tuple.digitAt input candidate)
                (Tuple.digitAt output candidate)
              else 0) :=
  ⟨table weights inputRange outputRange, regular.box_eq, regular.valid,
    fun _ _ _ present askedInside toldInside =>
      regular.reducedProb_eq present askedInside toldInside,
    fun _ _ _ _ inputFits sameLength present distinct inside =>
      regular.normalisedProb_eq inputFits sameLength present distinct inside⟩

/-- Two parties of which each gives one output to one of its inputs only. -/
def sparseWeights : Weights := [[[1, 3], [0, 2]], [[2, 2], [5, 0]]]

/-- The box of the sparse weights is valid. Its first party answers 1 to input 0 in three cases
of four. So it does while the second one is pending with an entry out of range; after the
first party has given an impossible answer to input 1 the second query comes to 0. -/
theorem sparseWeights_factor :
    Regular sparseWeights 2 2
      ∧ ∃ built : Box Rat, (box sparseWeights 2 2 : Attempt Unit (Box Rat)) = .ok built
        ∧ Validity.validate built 0 = .ok ()
        ∧ built.reducedProb 0 0 1 = .ok (3 / 4)
        ∧ built.normalisedProb [0, 1] [1, 7] [0, 1] = .ok (3 / 4)
        ∧ built.normalisedProb [1, 0] [0, 1] [1] = .ok 0 := by
  have regular : Regular sparseWeights 2 2 := by decide +kernel
  have inside : ∀ party, party ∉ [1] → ∀ value, [1, 7][party]? = some value → value < 2 := by
    rintro (_ | _ | party) outside value found
    · obtain rfl : 1 = value := by simpa using found
      decide
    · simp at outside
    · simp at found
  have revealed (party : Nat) (_ : party ∉ []) (value : Nat)
      (found : ([0, 1] : List Nat)[party]? = some value) : value < 2 := by
    have entries : ∀ entry ∈ ([0, 1] : List Nat), entry < 2 := by decide
    exact entries value (List.mem_of_getElem? found)
  obtain ⟨built, isBuilt, valid, reduced, normalised⟩ := product_factors (ε := Unit) regular
  refine ⟨regular, built, isBuilt, valid, ?_, ?_, ?_⟩
  · rw [reduced 0 0 1 (by decide) (by decide) (by decide)]
    exact congrArg Except.ok (by decide +kernel)
  · rw [normalised [0, 1] [1, 7] 0 [1] ⟨rfl, by decide⟩ rfl (by decide) (by decide) inside]
    exact congrArg Except.ok (by decide +kernel)
  · rw [normalised [1, 0] [0, 1] 1 [] ⟨rfl, by decide⟩ rfl (by decide) (by decide) revealed]
    exact congrArg Except.ok (by decide +kernel)

end Nonlocal.Product
