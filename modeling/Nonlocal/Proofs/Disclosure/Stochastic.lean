import Nonlocal.Proofs.Box.Completions
import Nonlocal.Proofs.Disclosure.Conditional
import Nonlocal.Proofs.Disclosure.Existence
import Nonlocal.Proofs.Model.Stochastic

/-!
# The commands of a model are probability distributions

The weights of a command come to 1 in three ways. Copies of a value are certain. A drawn
value has an exact ratio, and a first answer is divided by the total of the answers that
are kept. A later answer is a quotient already: all outputs of the candidate have one
denominator, the likelihood of all outputs in which the candidate is free, and that is
the sum of their numerators. Neither asks the rows of the matrix to sum to 1; it is
enough that no cell is negative, so that what is left out has weight 0.
-/

namespace Nonlocal

namespace Box

variable {box : Box Rat}

/-- The outputs of a candidate share the likelihood of all completions among them: the
queries have one denominator, which is the sum of their numerators. -/
theorem Shaped.normalisedProb_shares (shaped : box.Shaped) {input output : List Nat}
    {candidate : Nat} {rest : List Nat}
    (inputFits : Tuple.Fits box.inputRange box.partyCount input)
    (outputFits : Tuple.Fits box.outputRange box.partyCount output)
    (present : ∀ party ∈ candidate :: rest, party < box.partyCount)
    (distinct : (candidate :: rest).Nodup)
    (nonnegative : ∀ row ∈ box.matrix, ∀ cell ∈ row, 0 ≤ cell) :
    ∃ part : Nat → Rat, (∀ value, 0 ≤ part value)
      ∧ ∀ value < box.outputRange,
        box.normalisedProb input (output.set candidate value) (candidate :: rest)
          = .ok (part value / ∑ told ∈ Finset.range box.outputRange, part told) := by
  refine ⟨fun value => ∑ other ∈ box.matching rest (output.set candidate value),
    box.likelihood input other, fun value => Finset.sum_nonneg fun other _ =>
      likelihood_nonneg nonnegative input other, fun value inside => ?_⟩
  have unchanged : box.matching (candidate :: rest) (output.set candidate value)
      = box.matching (candidate :: rest) output := by
    apply matching_congr fun _ => Iff.rfl
    intro party outside
    apply List.getElem?_set_ne
    rintro rfl
    exact outside List.mem_cons_self
  rw [shaped.normalisedProb_eq inputFits (outputFits.set inside candidate) present distinct,
    unchanged, sum_matching_set outputFits (present candidate List.mem_cons_self)
      (List.nodup_cons.mp distinct).1]

end Box

namespace Disclosure

variable {box : Box Rat}

/-- Different signed words are different values of a model. -/
theorem nodup_intValue {values : List Nat} {range : Nat}
    (inOrder : values.Sublist (List.range range)) (words : range ≤ Word.greatestSigned) :
    (values.map intValue).Nodup := by
  have bounded : ∀ value ∈ values, value ≤ Word.greatestSigned := fun value member =>
    (List.mem_range.mp (inOrder.subset member)).le.trans words
  apply List.Nodup.map_on _ (inOrder.nodup List.nodup_range)
  intro left leftMember right rightMember same
  exact (intValue_inj (bounded left leftMember) (bounded right rightMember)).mp same

/-- Drawing a value is a uniform distribution. -/
theorem stochastic_coinToss (party : Nat) (input : String) {range : Nat} (positive : 0 < range)
    (words : range ≤ Word.greatestSigned) :
    (coinToss party range input : Command Rat).Stochastic := by
  have counted : (range : Rat) ≠ 0 := Nat.cast_ne_zero.mpr positive.ne'
  apply Command.Stochastic.of_total
  · intro branch member
    obtain ⟨value, -, rfl⟩ := List.mem_map.mp member
    simpa [Weight.share] using positive
  · simp [coinToss, Weight.share, Function.comp_def, mul_inv_cancel₀ counted]
  · refine ⟨input, (List.range range).map intValue, nodup_intValue (.refl _) words, ?_⟩
    simp [coinToss]

/-- Branches that disclose different outputs with positive weights that sum to 1 are a
distribution. -/
theorem stochastic_disclosing {command : Command Rat} {output : String} {range : Nat}
    {values : List (Nat × Rat)} (inOrder : (values.map Prod.fst).Sublist (List.range range))
    (words : range ≤ Word.greatestSigned) (positive : ∀ pair ∈ values, 0 < pair.2)
    (total : (values.map Prod.snd).sum = 1)
    (branches : command.branches = values.map fun (value, weight) =>
      disclosing output value weight) : command.Stochastic := by
  apply Command.Stochastic.of_total
  · intro branch member
    rw [branches] at member
    obtain ⟨pair, isPair, rfl⟩ := List.mem_map.mp member
    exact positive pair isPair
  · rw [branches, List.map_map, ← total]
    rfl
  · refine ⟨output, (values.map Prod.fst).map intValue, nodup_intValue inOrder words, ?_⟩
    rw [branches]
    simp [disclosing]

/-- A first answer is drawn from a distribution, since its weights are rescaled by their
total. -/
theorem stochastic_of_reducedCommand? (words : box.outputRange ≤ Word.greatestSigned)
    {question : Question} {command : Command Rat}
    (succeeded : reducedCommand? box question.party question.input = .ok (some command)) :
    command.Stochastic := by
  obtain ⟨_, _, _, _, _, spec⟩ := reducedCommand?_spec succeeded
  obtain ⟨output, values, -, weighted, nonempty, branches⟩ := (spec command rfl).1.branches
  obtain ⟨possible, listed, rest⟩ := (Attempt.bind_eq_ok_iff _ _ _).mp weighted
  obtain rfl := Except.ok.inj rest
  have positive : ∀ pair ∈ possible, 0 < pair.2 := fun pair member =>
    ((mem_positiveValues listed pair.1 pair.2).mp member).2.2
  have totalPositive : 0 < rowTotal (possible.map Prod.snd) := by
    rw [Validity.rowTotal_eq_sum]
    apply List.sum_pos
    · intro p member
      obtain ⟨pair, isPair, rfl⟩ := List.mem_map.mp member
      exact positive pair isPair
    · simpa using nonempty
  apply stochastic_disclosing _ words _ _ branches
  · simpa [Function.comp_def] using sublist_of_positiveValues listed
  · intro pair member
    obtain ⟨kept, isKept, rfl⟩ := List.mem_map.mp member
    exact div_pos (positive kept isKept) totalPositive
  · have rescaled : (possible.map fun pair => pair.2 / rowTotal (possible.map Prod.snd)).sum
        = (possible.map Prod.snd).sum / rowTotal (possible.map Prod.snd) := by
      simp only [div_eq_mul_inv, List.sum_map_mul_right]
    rw [List.map_map]
    refine rescaled.trans ?_
    rw [← Validity.rowTotal_eq_sum, div_self totalPositive.ne']

/-- Of quotients that share their denominator with the sum of the numerators, the positive
ones sum to 1, unless there are none. -/
theorem sum_positive_shares {part : Nat → Rat} {range : Nat} (nonnegative : ∀ value, 0 ≤ part value)
    {shares : List (Nat × Rat)}
    (kept : shares = (((List.range range).map fun value =>
      (value, part value / ∑ told ∈ Finset.range range, part told)).filter (0 < ·.2)))
    (possible : shares ≠ []) : (shares.map Prod.snd).sum = 1 := by
  have totalNonneg : 0 ≤ ∑ told ∈ Finset.range range, part told :=
    Finset.sum_nonneg fun told _ => nonnegative told
  obtain ⟨share, member⟩ := List.exists_mem_of_ne_nil _ possible
  rw [kept, List.mem_filter] at member
  obtain ⟨listed, positive⟩ := member
  obtain ⟨value, -, rfl⟩ := List.mem_map.mp listed
  have totalPositive : ∑ told ∈ Finset.range range, part told ≠ 0 := by
    intro vanishes
    simp [vanishes] at positive
  rw [kept, sum_filter_positive, List.map_map]
  · change ∑ value ∈ Finset.range range, part value / ∑ told ∈ Finset.range range, part told = 1
    rw [← Finset.sum_div, div_self totalPositive]
  · intro pair isPair
    obtain ⟨value, -, rfl⟩ := List.mem_map.mp isPair
    exact div_nonneg (nonnegative value) totalNonneg

/-- The candidate's value stands at its place in the tuple of a history. -/
theorem History.fullTuple_set {ε : Type} {history : History} {values digits : List Nat}
    (sameLength : values.length = history.revealed.length) {parties first : Nat}
    (made : (history.fullTuple parties first values : Attempt ε (List Nat)) = .ok digits)
    (value : Nat) :
    (history.fullTuple parties value values : Attempt ε (List Nat))
      = .ok (digits.set history.candidate value) := by
  rw [history.fullTuple_eq_ok sameLength] at made ⊢
  rw [← Except.ok.inj made]
  congr 1
  apply List.ext_getElem?
  intro party
  rw [List.getElem?_set]
  by_cases inside : party < parties
  · by_cases same : history.candidate = party
    · simp [same, inside]
    · simp [same, Ne.symm same, inside]
  · have beyond : history.candidate = party → parties ≤ history.candidate := by omega
    simpa [inside] using beyond

/-- A later answer is drawn from a distribution. -/
theorem stochastic_of_command? (shaped : box.Shaped)
    (words : box.outputRange ≤ Word.greatestSigned)
    (nonnegative : ∀ row ∈ box.matrix, ∀ cell ∈ row, 0 ≤ cell) {history : History}
    (listed : history.Listed box) {command : Command Rat}
    (succeeded : history.command? box = .ok (some command)) : command.Stochastic := by
  obtain ⟨-, -, -, branched, nonempty⟩ := command?_eq_some succeeded
  obtain ⟨input, inputMade, rest⟩ := (Attempt.bind_eq_ok_iff _ _ _).mp branched
  obtain ⟨output, outputNamed, rest⟩ := (Attempt.bind_eq_ok_iff _ _ _).mp rest
  obtain ⟨values, valued, same⟩ := (Attempt.bind_eq_ok_iff _ _ _).mp rest
  have branches := (Except.ok.inj same).symm
  obtain ⟨others, order, pendingPresent, distinct⟩ := listed.order_spec
  obtain ⟨_, inputAgain, inputFits⟩ := History.exists_fullTuple (ε := QueryError) listed.input
    listed.inputs_fit box.partyCount
  obtain rfl := Except.ok.inj (inputMade.symm.trans inputAgain)
  obtain ⟨full, fullMade, fullFits⟩ := History.exists_fullTuple (ε := QueryError)
    shaped.outputRanged listed.outputs_fit box.partyCount
  obtain ⟨part, partNonneg, asked⟩ := shaped.normalisedProb_shares inputFits fullFits
    pendingPresent distinct nonnegative
  have known : ∀ value < box.outputRange, (do
        let full ← history.fullTuple box.partyCount value history.knownOutputs
        box.normalisedProb input full history.order)
      = .ok (part value / ∑ told ∈ Finset.range box.outputRange, part told) := by
    intro value inside
    rw [History.fullTuple_set listed.outputs_fit.1 fullMade, order]
    exact asked value inside
  have shares := Except.ok.inj (valued.symm.trans (positiveValues_eq known))
  apply stochastic_disclosing (sublist_of_positiveValues valued) words _ _ branches
  · exact fun pair member => ((mem_positiveValues valued pair.1 pair.2).mp member).2.2
  · exact sum_positive_shares partNonneg shares (by simpa [branches] using nonempty)

/-- Every command of every module that is made from a box without negative cells is a
probability distribution: it has a branch, its weights lie in the unit interval and sum to
1, and its branches give different values to one variable. The rows of the box need not sum
to 1. -/
theorem commands_stochastic (storable : box.Storable) (complete : lacking? box = none)
    (nonnegative : ∀ row ∈ box.matrix, ∀ cell ∈ row, 0 ≤ cell) :
    ∃ model, Disclosure.model box = .ok model
      ∧ ∀ part ∈ model.modules, ∀ command ∈ part.commands, command.Stochastic := by
  obtain ⟨model, generated⟩ := exists_model (Box.shaped_of_lacking? complete)
    (Box.few_of_lacking? complete)
  obtain ⟨shaped, reduced, normalised, made, modules⟩ := modules_of_model generated
  have inputWords := shaped.inputRange_le storable
  have outputWords := shaped.outputRange_le storable
  refine ⟨model, generated, fun part partMember command member => ?_⟩
  rw [modules, List.mem_append, mem_inputParts, List.mem_singleton] at partMember
  rcases partMember with ⟨party, input, -, rfl⟩ | rfl
  · rcases (mem_inputPart command).mp member with rfl | ⟨value, -, rfl⟩
    · exact stochastic_coinToss party input shaped.inputRanged inputWords
    · exact .of_certain rfl
  rw [(outputPart_perm box reduced normalised).mem_iff, List.mem_append, List.mem_append,
    mem_inputSyncCommands] at member
  rcases member with ⟨party, input, value, -, -, rfl⟩ | inReduced | inNormalised
  · exact .of_certain rfl
  · obtain ⟨question, -, succeeded⟩ :=
      (Attempt.mem_filterMapM _ _ _ made.first command).mp inReduced
    exact stochastic_of_reducedCommand? outputWords succeeded
  · obtain ⟨masks, -, exactly, commands⟩ := made.later
    obtain ⟨history, isListed, succeeded⟩ :=
      (Attempt.mem_filterMapM _ _ _ commands command).mp inNormalised
    exact stochastic_of_command? shaped outputWords nonnegative ((exactly history).mp isListed)
      succeeded

/-- A box whose cells are not scaled to sum to 1, and one of which is 0. -/
def unscaledBox : Box Rat where
  inputs := ["x", "y"]
  outputs := ["a", "b"]
  inputRange := 1
  outputRange := 2
  matrix := [[1, 2, 0, 5]]

/-- The commands made from the unscaled box are distributions all the same. -/
theorem unscaledBox_stochastic :
    ∃ model, Disclosure.model unscaledBox = .ok model
      ∧ ∀ part ∈ model.modules, ∀ command ∈ part.commands, command.Stochastic :=
  commands_stochastic (by decide) (by decide +kernel) (by decide +kernel)

end Disclosure

end Nonlocal
