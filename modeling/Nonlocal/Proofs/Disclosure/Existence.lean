import Nonlocal.Model.Text
import Nonlocal.Proofs.Box.Answered
import Nonlocal.Proofs.Disclosure.Modules
import Nonlocal.Proofs.Validity.Idle

/-!
# Every valid box of few parties has a model

Making a model can go wrong in many places: a list may be indexed beyond its end, a
tuple may not fit, a count may outgrow its word, a query may be refused. In a shaped box
none of this happens. Each command is made from a question or a history that fits
together, so its query is asked with fitting tuples and its guard reads values that are
there; the sets of parties are listed as long as there is a bit for each party. That
bound is the one precondition that a valid box may lack, and a box of idle parties does.
-/

namespace Nonlocal.Disclosure

variable {α : Type} {box : Box α}

namespace History

/-- The tuple of a candidate's value and known values fits if these are in range. -/
theorem exists_fullTuple {ε : Type} {history : History} {range value : Nat} {values : List Nat}
    (inside : value < range) (fits : Tuple.Fits range history.revealed.length values)
    (parties : Nat) :
    ∃ digits, (history.fullTuple parties value values : Attempt ε (List Nat)) = .ok digits
      ∧ Tuple.Fits range parties digits := by
  refine ⟨_, history.fullTuple_eq_ok fits.1 parties value, by simp, ?_⟩
  intro digit member
  obtain ⟨party, -, rfl⟩ := List.mem_map.mp member
  split
  · exact inside
  · cases known : history.known? values party with
    | none => exact (Nat.zero_le _).trans_lt inside
    | some held =>
      obtain ⟨slot, -, found⟩ := Option.bind_eq_some_iff.mp known
      exact fits.2 held (List.mem_of_getElem? found)

/-- The guard of a listed history can be written down. -/
theorem exists_guard {ε : Type} {history : History} (listed : history.Listed box) :
    ∃ guard, (history.guard box : Attempt ε (List Binding)) = .ok guard := by
  obtain ⟨seen, seenGuarded⟩ :
      ∃ seen, (history.seenGuard box : Attempt ε (List Binding)) = .ok seen :=
    Attempt.exists_filterMapM _ _ fun entry _ => ⟨_, seenBinding_eq_ok listed entry.2 entry.1⟩
  obtain ⟨outputs, outputsGuarded⟩ :
      ∃ outputs, (history.outputGuard box : Attempt ε (List Binding)) = .ok outputs :=
    Attempt.exists_mapM _ _ fun entry _ =>
      Attempt.exists_bind (revealedValue_eq_ok listed.outputs_fit.1 entry.2) ⟨_, rfl⟩
  exact Attempt.exists_bind seenGuarded (Attempt.exists_bind outputsGuarded ⟨_, rfl⟩)

/-- The pending parties of a listed history are parties of the box, each listed once. -/
theorem Listed.order_spec {history : History} (listed : history.Listed box) :
    ∃ rest, history.order = history.candidate :: rest
      ∧ (∀ party ∈ history.candidate :: rest, party < box.partyCount)
      ∧ (history.candidate :: rest).Nodup := by
  refine ⟨_, listed.order, ?_, ?_⟩
  · intro party member
    rcases List.mem_cons.mp member with rfl | later
    · exact listed.candidate
    · exact List.mem_range.mp (List.mem_filter.mp (List.mem_filter.mp later).1).1
  · exact List.nodup_cons.mpr ⟨by simp, (List.nodup_range.filter _).filter _⟩

end History

/-- The modules of the inputs can be made. -/
theorem exists_inputModules {ε : Type} (box : Box α) :
    ∃ parts, (List.range box.partyCount).mapM
      (fun party => (inputModule box party : Attempt ε (Module α))) = .ok parts := by
  apply Attempt.exists_mapM
  intro party member
  have named := List.getElem?_eq_getElem (l := box.inputs) (List.mem_range.mp member)
  exact Attempt.exists_bind ((Attempt.get_eq_ok_iff _ _ _).mpr named) ⟨_, rfl⟩

section

variable [Zero α] [Add α] [Div α] [LT α] [DecidableLT α]

omit [Add α] [Div α] in
/-- The possible values are listed if the probability of each value of the range is
known. -/
theorem exists_positiveValues {ε : Type} {range : Nat} {probability : Nat → Attempt ε α}
    (each : ∀ value < range, ∃ p, probability value = .ok p) :
    ∃ values, positiveValues range probability = .ok values := by
  obtain ⟨pairs, listed⟩ := Attempt.exists_mapM
    (fun value => do
      let p ← probability value
      pure (value, p))
    (List.range range) fun value member => by
      obtain ⟨p, known⟩ := each value (List.mem_range.mp member)
      exact Attempt.exists_bind known ⟨_, rfl⟩
  exact Attempt.exists_bind listed ⟨_, rfl⟩

/-- A first answer has a command or no possible output. -/
theorem exists_reducedCommand? [Scalar α] (shaped : box.Shaped) {party input : Nat}
    (present : party < box.partyCount) (inside : input < box.inputRange) :
    ∃ made, reducedCommand? box party input = .ok made := by
  obtain ⟨inputName, inputNamed⟩ := shaped.exists_input present
  obtain ⟨output, outputNamed⟩ := shaped.exists_output present
  obtain ⟨values, listed⟩ := exists_positiveValues fun value valueInside =>
    shaped.exists_reducedProb present inside valueInside
  refine Attempt.exists_bind ((Attempt.get_eq_ok_iff _ _ _).mpr inputNamed)
    (Attempt.exists_bind ((Attempt.get_eq_ok_iff _ _ _).mpr outputNamed)
      (Attempt.exists_bind listed ?_))
  split <;> exact ⟨_, rfl⟩

/-- The commands for first answers can be made. -/
theorem exists_reducedCommands [Scalar α] (shaped : box.Shaped) :
    ∃ commands, reducedCommands box = .ok commands := by
  obtain ⟨perParty, made⟩ := Attempt.exists_mapM
    (fun party => (List.range box.inputRange).filterMapM fun input =>
      reducedCommand? box party input)
    (List.range box.partyCount) fun party member =>
      Attempt.exists_filterMapM _ _ fun input inputMember =>
        exists_reducedCommand? shaped (List.mem_range.mp member) (List.mem_range.mp inputMember)
  exact Attempt.exists_bind made ⟨_, rfl⟩

variable [BEq α]

/-- The possible outputs of a listed history are found. -/
theorem exists_branches (shaped : box.Shaped) {history : History} (listed : history.Listed box) :
    ∃ branches, history.branches box = .ok branches := by
  obtain ⟨rest, order, present, distinct⟩ := listed.order_spec
  obtain ⟨output, outputNamed⟩ := shaped.exists_output listed.candidate
  obtain ⟨input, inputMade, inputFits⟩ := History.exists_fullTuple (ε := QueryError)
    listed.input listed.inputs_fit box.partyCount
  have each : ∀ value < box.outputRange, ∃ p, (do
      let full ← history.fullTuple box.partyCount value history.knownOutputs
      box.normalisedProb input full history.order) = .ok p := by
    intro value inside
    obtain ⟨full, fullMade, fullFits⟩ := History.exists_fullTuple (ε := QueryError)
      inside listed.outputs_fit box.partyCount
    rw [order]
    exact Attempt.exists_bind fullMade
      (shaped.exists_normalisedProb inputFits fullFits present distinct)
  obtain ⟨values, valued⟩ := exists_positiveValues each
  exact Attempt.exists_bind inputMade
    (Attempt.exists_bind ((Attempt.get_eq_ok_iff _ _ _).mpr outputNamed)
      (Attempt.exists_bind valued ⟨_, rfl⟩))

/-- A listed history has a command or no possible output. -/
theorem exists_command? (shaped : box.Shaped) {history : History} (listed : history.Listed box) :
    ∃ made, history.command? box = .ok made := by
  obtain ⟨branches, branched⟩ := exists_branches shaped listed
  obtain ⟨guard, guarded⟩ := history.exists_guard (ε := QueryError) listed
  refine Attempt.exists_bind branched ?_
  split
  · exact ⟨none, rfl⟩
  · exact Attempt.exists_bind guarded ⟨_, rfl⟩

/-- The commands for later answers can be made for few parties: all sets of parties are
listed, and what is listed for each set is a listed history. -/
theorem exists_normalisedCommands (shaped : box.Shaped)
    (few : box.partyCount ≤ PartySet.maxParties) :
    ∃ commands, normalisedCommands box = .ok commands := by
  obtain ⟨masks, listed, -, exactly⟩ := PartySet.proper_exact (ε := QueryError) few
  have words : box.partyCount ≤ Word.width := few.trans (by decide)
  obtain ⟨perMask, made⟩ := Attempt.exists_mapM
    (fun mask => do
      let pending ← PartySet.members mask box.partyCount
      (historiesOf box.inputRange box.outputRange box.partyCount mask pending).filterMapM
        fun history => history.command? box)
    masks fun mask member => Attempt.exists_bind (PartySet.members_eq words)
      (Attempt.exists_filterMapM _ _ fun history inner => exists_command? shaped
        ((mem_histories exactly history).mp (List.mem_flatMap.mpr ⟨mask, member, inner⟩)))
  exact Attempt.exists_bind listed (Attempt.exists_bind made ⟨_, rfl⟩)

/-- A shaped box of few parties has a model. -/
theorem exists_model [Scalar α] (shaped : box.Shaped)
    (few : box.partyCount ≤ PartySet.maxParties) : ∃ model, Disclosure.model box = .ok model := by
  obtain ⟨parts, partsMade⟩ := exists_inputModules (ε := ModelError) box
  obtain ⟨reduced, first⟩ := exists_reducedCommands shaped
  obtain ⟨normalised, later⟩ := exists_normalisedCommands shaped few
  obtain ⟨output, outputMade⟩ : ∃ output, outputModule box = .ok output :=
    Attempt.exists_bind first (Attempt.exists_bind later ⟨_, rfl⟩)
  rw [Disclosure.model, shaped.lacking?_eq, if_pos few]
  exact Attempt.exists_bind partsMade
    (Attempt.exists_bind ((Attempt.mapRefusal_eq_ok_iff _ _ _).mpr outputMade) ⟨_, rfl⟩)

/-- A valid box of few parties has a model, which can be written down. With more parties it is
refused for their number. -/
theorem valid_box_generates [One α] [Sub α] [LE α] [DecidableLE α] [Scalar α] [ScalarText α]
    {tolerance : α} (valid : Validity.validate box tolerance = .ok ()) :
    (box.partyCount ≤ PartySet.maxParties →
        ∃ text, (Disclosure.model box).map Model.text = .ok text)
      ∧ (PartySet.maxParties < box.partyCount →
        (Disclosure.model box).map Model.text
          = Attempt.refuse (.precondition (.fewEnough box.partyCount))) := by
  have shaped := Validity.shaped_of_validate valid
  constructor
  · intro few
    obtain ⟨model, generated⟩ := exists_model shaped few
    exact ⟨model.text, by rw [generated]; rfl⟩
  · intro many
    rw [Disclosure.model, shaped.lacking?_eq, if_neg many.not_ge]
    rfl

end

/-- The model of the correlated box can be written down. -/
theorem correlated_generates :
    ∃ text, (Disclosure.model (Box.correlated 0 0.5 : Box Float)).map Model.text = .ok text := by
  have valid : Validity.validate (Box.correlated 0 0.5 : Box Float) Validity.defaultTolerance
      = .ok () := Attempt.eq_ok_of_toOption (by decide +kernel)
  exact (valid_box_generates valid).1 (by decide)

/-- The idle box of 64 parties is valid and has no model. -/
theorem idleBox_refused :
    Validity.validate (idleBox 64) Validity.defaultTolerance = .ok ()
      ∧ (Disclosure.model (idleBox 64)).map Model.text
        = Attempt.refuse (.precondition (.fewEnough 64)) := by
  have shaped : (idleBox 64).Shaped := idleBox.shaped (by decide)
  refine ⟨idleBox.valid (by decide) (by decide), ?_⟩
  rw [Disclosure.model, shaped.lacking?_eq]
  rfl

end Nonlocal.Disclosure
