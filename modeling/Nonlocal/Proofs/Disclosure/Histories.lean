import Mathlib.Data.List.Nodup
import Mathlib.Data.List.Range
import Nonlocal.Proofs.Disclosure.Weights
import Nonlocal.Proofs.PartySet.Enumeration

/-!
# The histories that have commands

The commands for later answers are made one by one for a list of histories. A
history is listed exactly if it fits together: a set of pending parties that is
neither empty nor everything, a candidate among them, and values in range for the
candidate's input and for the inputs and outputs of the revealed parties. No
history is listed twice.
-/

namespace Nonlocal.Disclosure

variable {α : Type} {box : Box α}

/-- The histories in the order in which their commands are made. -/
def histories (box : Box α) (masks : List Nat) : List History :=
  masks.flatMap fun mask =>
    historiesOf box.inputRange box.outputRange box.partyCount mask
      ((List.range box.partyCount).filter mask.testBit)

namespace History

/-- A history that fits together. -/
structure Listed (box : Box α) (history : History) : Prop where
  bound : history.mask < 2 ^ box.partyCount
  begun : history.revealed ≠ []
  revealed : history.revealed
    = (List.range box.partyCount).filter fun party => !history.mask.testBit party
  candidate : history.candidate < box.partyCount
  pending : history.mask.testBit history.candidate = true
  order : history.order = history.candidate
    :: ((List.range box.partyCount).filter history.mask.testBit).filter (· ≠ history.candidate)
  input : history.input < box.inputRange
  knownInputs : (Tuple.walk box.inputRange history.revealed.length)[history.inputTuple]?
    = some history.knownInputs
  knownOutputs : (Tuple.walk box.outputRange history.revealed.length)[history.outputTuple]?
    = some history.knownOutputs

/-- The value of a party among values of the revealed parties. -/
def known? (history : History) (values : List Nat) (party : Nat) : Option Nat :=
  (history.revealed.idxOf? party).bind (values[·]?)

end History

/-- A list made from sources that its elements still name has no element twice. -/
theorem nodup_flatMap_of_source {β γ : Type} {sources : List β} {made : β → List γ}
    (source : γ → β) (distinct : sources.Nodup) (each : ∀ origin ∈ sources, (made origin).Nodup)
    (named : ∀ origin ∈ sources, ∀ element ∈ made origin, source element = origin) :
    (sources.flatMap made).Nodup := by
  rw [List.nodup_flatMap]
  refine ⟨each, (List.Pairwise.and_mem.mp distinct).imp ?_⟩
  rintro first second ⟨firstMember, secondMember, different⟩ element inFirst inSecond
  exact different ((named first firstMember element inFirst).symm.trans
    (named second secondMember element inSecond))

/-- Numbered elements differ by their numbers. -/
theorem nodup_zipIdx {β : Type} (elements : List β) : elements.zipIdx.Nodup := by
  refine List.Nodup.of_map Prod.snd ?_
  rw [List.zipIdx_map_snd]
  exact List.nodup_range'

/-- No history is listed twice: a history names its mask, its candidate, the
candidate's input and the tuples it was made from. -/
theorem nodup_histories {masks : List Nat} (distinct : masks.Nodup) :
    (histories box masks).Nodup := by
  refine nodup_flatMap_of_source History.mask distinct ?_ ?_
  · intro mask _
    refine nodup_flatMap_of_source History.candidate (List.nodup_range.filter _) ?_ ?_
    · intro candidate _
      refine nodup_flatMap_of_source History.input List.nodup_range ?_ ?_
      · intro input _
        refine nodup_flatMap_of_source
          (fun history => (history.knownInputs, history.inputTuple)) (nodup_zipIdx _) ?_ ?_
        · rintro ⟨knownInputs, inputTuple⟩ _
          refine (nodup_zipIdx _).map ?_
          rintro ⟨firstOutputs, firstTuple⟩ ⟨secondOutputs, secondTuple⟩ same
          simp only [History.mk.injEq] at same
          simp [same]
        · rintro ⟨knownInputs, inputTuple⟩ _ history member
          obtain ⟨outputs, -, rfl⟩ := List.mem_map.mp member
          rfl
      · intro input _ history member
        obtain ⟨inputs, -, inner⟩ := List.mem_flatMap.mp member
        obtain ⟨outputs, -, rfl⟩ := List.mem_map.mp inner
        rfl
    · intro candidate _ history member
      obtain ⟨input, -, inner⟩ := List.mem_flatMap.mp member
      obtain ⟨inputs, -, innermost⟩ := List.mem_flatMap.mp inner
      obtain ⟨outputs, -, rfl⟩ := List.mem_map.mp innermost
      rfl
  · intro mask _ history member
    obtain ⟨candidate, -, outer⟩ := List.mem_flatMap.mp member
    obtain ⟨input, -, inner⟩ := List.mem_flatMap.mp outer
    obtain ⟨inputs, -, innermost⟩ := List.mem_flatMap.mp inner
    obtain ⟨outputs, -, rfl⟩ := List.mem_map.mp innermost
    rfl

/-- The parties outside the pending set of a mask are those without a bit. -/
theorem filter_not_pending (parties mask : Nat) :
    ((List.range parties).filter fun party =>
        !((List.range parties).filter mask.testBit).contains party)
      = (List.range parties).filter fun party => !mask.testBit party := by
  apply List.filter_congr
  intro party member
  simp [List.mem_range.mp member]

/-- The histories of one pending set, by what they are made of. -/
theorem mem_historiesOf {mask : Nat} {history : History} (bound : mask < 2 ^ box.partyCount)
    (begun : (List.range box.partyCount).filter (fun party => !mask.testBit party) ≠ []) :
    history ∈ historiesOf box.inputRange box.outputRange box.partyCount mask
        ((List.range box.partyCount).filter mask.testBit)
      ↔ history.mask = mask ∧ history.Listed box := by
  simp only [historiesOf, filter_not_pending, List.mem_flatMap, List.mem_map, Prod.exists,
    List.mem_zipIdx_iff_getElem?, List.mem_filter, List.mem_range]
  constructor
  · rintro ⟨candidate, ⟨present, pending⟩, input, inside, inputs, inputTuple, inputsListed,
      outputs, outputTuple, outputsListed, rfl⟩
    exact ⟨rfl, bound, begun, rfl, present, pending, rfl, inside, inputsListed, outputsListed⟩
  · rintro ⟨rfl, listed⟩
    refine ⟨history.candidate, ⟨listed.candidate, listed.pending⟩, history.input, listed.input,
      history.knownInputs, history.inputTuple, ?_, history.knownOutputs, history.outputTuple,
      ?_, ?_⟩
    · exact listed.revealed ▸ listed.knownInputs
    · exact listed.revealed ▸ listed.knownOutputs
    · rw [← listed.revealed, ← listed.order]

/-- Over the nonempty proper sets of the parties exactly the listed histories are
made. -/
theorem mem_histories {masks : List Nat} (exactly : ∀ mask, mask ∈ masks
      ↔ mask < 2 ^ box.partyCount ∧ 0 < PartySet.population mask
        ∧ PartySet.population mask < box.partyCount) (history : History) :
    history ∈ histories box masks ↔ history.Listed box := by
  have parts (mask : Nat) := List.length_eq_length_filter_add
    (l := List.range box.partyCount) mask.testBit
  constructor
  · intro member
    obtain ⟨mask, listed, inner⟩ := List.mem_flatMap.mp member
    obtain ⟨bound, -, proper⟩ := (exactly mask).mp listed
    have counted := parts mask
    rw [PartySet.length_members bound, List.length_range] at counted
    refine ((mem_historiesOf bound ?_).mp inner).2
    exact List.ne_nil_of_length_pos (by omega)
  · intro listed
    have counted := parts history.mask
    rw [PartySet.length_members listed.bound, List.length_range] at counted
    have someRevealed : 0 < history.revealed.length := List.length_pos_iff.mpr listed.begun
    rw [listed.revealed] at someRevealed
    have somePending : 0 < PartySet.population history.mask := by
      rw [← PartySet.length_members listed.bound]
      refine List.length_pos_of_mem (a := history.candidate) ?_
      exact List.mem_filter.mpr ⟨List.mem_range.mpr listed.candidate, listed.pending⟩
    refine List.mem_flatMap.mpr ⟨history.mask, ?_, ?_⟩
    · exact (exactly _).mpr ⟨listed.bound, somePending, by omega⟩
    · refine (mem_historiesOf listed.bound ?_).mpr ⟨rfl, listed⟩
      exact List.ne_nil_of_length_pos someRevealed

namespace History

variable {history : History}

/-- A value is known of exactly the revealed parties. -/
theorem isSome_known? {values : List Nat} (sameLength : values.length = history.revealed.length)
    (party : Nat) : (history.known? values party).isSome ↔ party ∈ history.revealed := by
  unfold known?
  cases found : history.revealed.idxOf? party with
  | none => simpa using List.idxOf?_eq_none_iff.mp found
  | some slot =>
    obtain ⟨inside, same, -⟩ := List.idxOf?_eq_some_iff.mp found
    have member : party ∈ history.revealed := List.mem_of_getElem same
    rw [← sameLength] at inside
    simp [member, List.getElem?_eq_getElem inside]

/-- Reading a value among those of the revealed parties never goes wrong. -/
theorem revealedValue_eq_ok {ε : Type} {values : List Nat}
    (sameLength : values.length = history.revealed.length) (party : Nat) :
    (history.revealedValue values party : Attempt ε (Option Nat))
      = .ok (history.known? values party) := by
  unfold revealedValue known?
  cases found : history.revealed.idxOf? party with
  | none => rfl
  | some slot =>
    obtain ⟨inside, -⟩ := List.idxOf?_eq_some_iff.mp found
    rw [← sameLength] at inside
    simp [Attempt.get, List.getElem?_eq_getElem inside, Functor.map, Except.map]

/-- The values of the revealed parties are given by what is known of each. -/
theorem eq_of_known? (distinct : history.revealed.Nodup) {first second : List Nat}
    (firstLength : first.length = history.revealed.length)
    (secondLength : second.length = history.revealed.length)
    (same : ∀ party ∈ history.revealed, history.known? first party = history.known? second party) :
    first = second := by
  apply List.ext_getElem (firstLength.trans secondLength.symm)
  intro slot inFirst inSecond
  have inside : slot < history.revealed.length := firstLength ▸ inFirst
  have placed : history.revealed.idxOf? history.revealed[slot] = some slot := by
    rw [List.idxOf?_eq_some_iff]
    refine ⟨inside, rfl, ?_⟩
    intro earlier before sameParty
    exact Nat.ne_of_lt before ((distinct.getElem_inj_iff).mp sameParty)
  have agree := same _ (List.getElem_mem inside)
  simpa [known?, placed, List.getElem?_eq_getElem inFirst, List.getElem?_eq_getElem inSecond]
    using agree

/-- The tuple that is made of a candidate's value and the known values. -/
theorem fullTuple_eq_ok {ε : Type} {values : List Nat}
    (sameLength : values.length = history.revealed.length) (parties candidateValue : Nat) :
    (history.fullTuple parties candidateValue values : Attempt ε (List Nat))
      = .ok ((List.range parties).map fun party =>
          if party = history.candidate then candidateValue
          else (history.known? values party).getD 0) := by
  apply Attempt.mapM_eq_map
  intro party _
  by_cases same : party = history.candidate
  · simp [same, pure, Except.pure]
  · simp [same, revealedValue_eq_ok sameLength, bind, Except.bind, pure, Except.pure]

namespace Listed

variable (listed : history.Listed box)

include listed

/-- The known inputs are one for each revealed party, and in range. -/
theorem inputs_fit : Tuple.Fits box.inputRange history.revealed.length history.knownInputs :=
  Tuple.mem_walk.mp (List.mem_of_getElem? listed.knownInputs)

/-- The known outputs are one for each revealed party, and in range. -/
theorem outputs_fit : Tuple.Fits box.outputRange history.revealed.length history.knownOutputs :=
  Tuple.mem_walk.mp (List.mem_of_getElem? listed.knownOutputs)

/-- The revealed parties are listed once each. -/
theorem nodup_revealed : history.revealed.Nodup := by
  rw [listed.revealed]
  exact List.nodup_range.filter _

/-- The revealed parties are those without a bit in the mask. -/
theorem mem_revealed (party : Nat) :
    party ∈ history.revealed
      ↔ party < box.partyCount ∧ history.mask.testBit party = false := by
  simp [listed.revealed]

/-- The candidate is not revealed. -/
theorem candidate_not_revealed : history.candidate ∉ history.revealed := by
  rw [listed.mem_revealed, listed.pending]
  simp

end Listed

end History

end Nonlocal.Disclosure
