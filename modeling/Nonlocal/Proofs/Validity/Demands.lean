import Mathlib.Algebra.Field.Rat
import Mathlib.Algebra.Order.Group.Abs
import Nonlocal.Proofs.Identifier.Generated
import Nonlocal.Proofs.Tuple.Sum
import Nonlocal.Proofs.Validity.Passed

/-!
# What validity demands, and what can be wrong

Each check stands for a demand on the box that mentions neither the order in which the
box is looked through nor the first thing found. Beside the demands stand the genuine
violations: the reports whose fields are true of the box. A genuine violation of a check
contradicts its demand, provided that the box has come that far: a report of too many
tuples is only to be had from a box that could be stored.
-/

namespace Nonlocal

/-- The checks that run before another. -/
def Check.before (check : Check) : List Check := Check.all.takeWhile (· != check)

/-- They are what stands in front of it. -/
theorem Check.before_eq {check : Check} {before after : List Check}
    (whole : Check.all = before ++ check :: after) : check.before = before := by
  have distinct : (before ++ check :: after).Nodup := whole ▸ by decide
  have others : ∀ other ∈ before, (other != check) = true := by
    intro other member
    have apart := (List.nodup_append.mp distinct).2.2 other member check List.mem_cons_self
    simpa using apart
  rw [Check.before, whole, List.takeWhile_append_of_pos others,
    List.takeWhile_cons_of_neg (by simp), List.append_nil]

namespace Box

/-- The outputs of all parties but one, with their likelihoods summed over what that party
answers. -/
def othersMass (box : Box Rat) (party : Nat) (input otherOutputs : List Nat) : Rat :=
  ∑ told ∈ Finset.range box.outputRange,
    box.likelihood input (otherOutputs.insertIdx party told)

/-- All declared names, inputs first. -/
def declared {α : Type} (box : Box α) : List String := box.inputs ++ box.outputs

/-- Names that can be the variables of a model. -/
structure Named {α : Type} (box : Box α) : Prop where
  wellFormed : ∀ name ∈ box.declared, Identifier.WellFormed name
  unreserved : ∀ name ∈ box.declared, name ∉ Identifier.reservedWords
  once : box.declared.Nodup
  ungenerated : ∀ name ∈ box.declared, ¬ Identifier.Generated name box.inputs box.inputRange

/-- What a naming issue says of a name. -/
def HasIssue {α : Type} (box : Box α) (name : String) : NamingIssue → Prop
  | .notAnIdentifier => ¬ Identifier.WellFormed name
  | .reservedWord => name ∈ Identifier.reservedWords
  | .duplicate => 2 ≤ box.declared.count name
  | .generatedName => Identifier.Generated name box.inputs box.inputRange

/-- A name with an issue cannot be a variable. -/
theorem HasIssue.not_named {α : Type} {box : Box α} {name : String} {issue : NamingIssue}
    (has : box.HasIssue name issue) (member : name ∈ box.declared) : ¬ box.Named := by
  intro named
  cases issue with
  | notAnIdentifier => exact has (named.wellFormed name member)
  | reservedWord => exact named.unreserved name member has
  | duplicate =>
    have once := List.nodup_iff_count_le_one.mp named.once name
    have twice : 2 ≤ box.declared.count name := has
    omega
  | generatedName => exact named.ungenerated name member has

end Box

namespace Validity

/-- What a check demands of a box. -/
def Demands (box : Box Rat) (tolerance : Rat) : Check → Prop
  | .valueRange => ∀ row ∈ box.matrix, ∀ cell ∈ row, 0 ≤ cell ∧ cell ≤ 1
  | .rowCount =>
    0 < box.inputRange ∧ 0 < box.outputRange
      ∧ box.matrix.length = Tuple.total box.inputRange box.inputs.length
  | .rowLength => ∀ row ∈ box.matrix, row.length = Tuple.total box.outputRange box.outputs.length
  | .rowSum => ∀ row ∈ box.matrix, |row.sum - 1| ≤ tolerance
  | .partyBalance => box.inputs.length = box.outputs.length ∧ 0 < box.inputs.length
  | .variableNaming => box.Named
  | .nonSignalling => ∀ party < box.partyCount, ∀ input,
      Tuple.Fits box.inputRange box.partyCount input → input[party]? = some 0 →
      ∀ value < box.inputRange, ∀ otherOutputs,
        Tuple.Fits box.outputRange (box.partyCount - 1) otherOutputs →
        |box.othersMass party (input.set party value) otherOutputs
          - box.othersMass party input otherOutputs| ≤ tolerance

/-- The violations that a check can rightly report of a box. -/
inductive Genuine (box : Box Rat) (tolerance : Rat) : Check → Violation Rat → Prop where
  | cellValue {row column : Nat} {value : Rat} (found : box.cell? row column = some value)
      (outside : ¬ (0 ≤ value ∧ value ≤ 1)) :
      Genuine box tolerance .valueRange (.cellValue row column value)
  | emptyRange {side : Side} (empty : box.range side = 0) :
      Genuine box tolerance .rowCount (.emptyRange side 0)
  | tooManyInputs (excess : Word.limit ≤ Tuple.total box.inputRange box.inputs.length) :
      Genuine box tolerance .rowCount (.tooManyTuples .input box.inputRange box.inputs.length)
  | rowCount (differ : box.matrix.length ≠ Tuple.total box.inputRange box.inputs.length) :
      Genuine box tolerance .rowCount
        (.rowCount (Tuple.total box.inputRange box.inputs.length) box.matrix.length)
  | tooManyOutputs (excess : Word.limit ≤ Tuple.total box.outputRange box.outputs.length) :
      Genuine box tolerance .rowLength
        (.tooManyTuples .output box.outputRange box.outputs.length)
  | rowLength {row : Nat} {cells : List Rat} (stored : box.matrix[row]? = some cells)
      (differ : cells.length ≠ Tuple.total box.outputRange box.outputs.length) :
      Genuine box tolerance .rowLength
        (.rowLength row (Tuple.total box.outputRange box.outputs.length) cells.length)
  | rowSum {row : Nat} {cells : List Rat} (stored : box.matrix[row]? = some cells)
      (far : tolerance < |cells.sum - 1|) :
      Genuine box tolerance .rowSum (.rowSum row cells.sum)
  | unequalParties (differ : box.inputs.length ≠ box.outputs.length) :
      Genuine box tolerance .partyBalance
        (.unequalParties box.inputs.length box.outputs.length)
  | noParties (noInputs : box.inputs = []) (noOutputs : box.outputs = []) :
      Genuine box tolerance .partyBalance .noParties
  | naming {name : String} {issue : NamingIssue} (member : name ∈ box.declared)
      (has : box.HasIssue name issue) :
      Genuine box tolerance .variableNaming (.naming name issue)
  | signalling {party input : Nat} {otherInputs otherOutputs : List Nat}
      (present : party < box.partyCount)
      (inputsFit : Tuple.Fits box.inputRange (box.partyCount - 1) otherInputs)
      (outputsFit : Tuple.Fits box.outputRange (box.partyCount - 1) otherOutputs)
      (positive : 0 < input) (inside : input < box.inputRange)
      (far : tolerance < |box.othersMass party (otherInputs.insertIdx party input) otherOutputs
        - box.othersMass party (otherInputs.insertIdx party 0) otherOutputs|) :
      Genuine box tolerance .nonSignalling (.signalling party {
        otherInputs, otherOutputs
        baselineInput := 0
        baselineMarginal := box.othersMass party (otherInputs.insertIdx party 0) otherOutputs
        input
        marginal := box.othersMass party (otherInputs.insertIdx party input) otherOutputs })

/-- Signalling that is genuine contradicts the last demand: the others with two values of the
party put in are a whole tuple with the value replaced. -/
theorem Genuine.not_nonSignalling {box : Box Rat} {tolerance : Rat} {violation : Violation Rat}
    (genuine : Genuine box tolerance .nonSignalling violation) :
    ¬ Demands box tolerance .nonSignalling := by
  intro demanded
  cases genuine with
  | @signalling party input otherInputs otherOutputs present inputsFit outputsFit _ inside far =>
    have whole : box.partyCount - 1 + 1 = box.partyCount := by omega
    have room : party ≤ otherInputs.length := by rw [inputsFit.1]; omega
    have fits := whole ▸ inputsFit.insertIdx ((Nat.zero_le _).trans_lt inside)
      (inputsFit.1 ▸ room)
    have close := demanded party present (otherInputs.insertIdx party 0) fits
      (by simp [List.getElem?_insertIdx_self, room]) input inside otherOutputs outputsFit
    rw [Tuple.set_insertIdx room] at close
    exact far.not_ge close

/-- A genuine violation contradicts the demand of its check. Too many tuples do so because
no list is that long: there are fewer rows, or the rows that there are have fewer
cells. -/
theorem Genuine.not_demands {box : Box Rat} {tolerance : Rat} {check : Check}
    {violation : Violation Rat} (storable : box.Storable)
    (earlier : ∀ other ∈ check.before, Demands box tolerance other)
    (genuine : Genuine box tolerance check violation) : ¬ Demands box tolerance check := by
  have words : Word.greatestSigned < Word.limit := by decide
  intro demanded
  cases genuine with
  | cellValue found outside =>
    obtain ⟨row, stored, inRow⟩ := Option.bind_eq_some_iff.mp found
    exact outside (demanded row (List.mem_of_getElem? stored) _ (List.mem_of_getElem? inRow))
  | @emptyRange side empty =>
    obtain ⟨inputRanged, outputRanged, -⟩ := demanded
    cases side with
    | input => exact inputRanged.ne' empty
    | output => exact outputRanged.ne' empty
  | tooManyInputs excess =>
    have rows := storable.rows
    rw [demanded.2.2] at rows
    omega
  | rowCount differ => exact differ demanded.2.2
  | tooManyOutputs excess =>
    obtain ⟨inputRanged, -, rows⟩ := earlier .rowCount (by decide)
    obtain ⟨row, member⟩ : ∃ row, row ∈ box.matrix := by
      refine List.exists_mem_of_length_pos ?_
      rw [rows]
      exact Nat.pow_pos inputRanged
    have columns := storable.columns row member
    rw [demanded row member] at columns
    omega
  | rowLength stored differ => exact differ (demanded _ (List.mem_of_getElem? stored))
  | rowSum stored far => exact far.not_ge (demanded _ (List.mem_of_getElem? stored))
  | unequalParties differ => exact differ demanded.1
  | noParties noInputs => simp [Demands, noInputs] at demanded
  | naming member has => exact has.not_named member demanded
  | signalling present inputsFit outputsFit positive inside far =>
    exact (Genuine.signalling present inputsFit outputsFit positive inside far).not_nonSignalling
      demanded

end Validity

end Nonlocal
