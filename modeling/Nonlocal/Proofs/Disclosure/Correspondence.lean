import Nonlocal.Proofs.Disclosure.Existence
import Nonlocal.Proofs.Disclosure.Ordered

/-!
# The keys of later answers

The key of a command for a later answer says which history the command is for: the set of
pending parties as a mask, the candidate and its input, and what the others saw and answered
as two indices. The digits of an index belong to the revealed parties in ascending order, so
a party's digit is found by how many revealed parties come after it, whatever gaps the set
leaves. Reading a key this way gives the tuples of the query and the guard; a command is made
for exactly those keys whose query has a positive answer.
-/

namespace Nonlocal

namespace Key

variable {α : Type}

/-- The pending parties of a key, ascending. -/
def pending (parties : Nat) (key : Key) : List Nat :=
  (List.range parties).filter key.subsetMask.testBit

/-- The digit of an index that belongs to a revealed party: later parties outside the mask
have less significant ones. -/
def digitOf (radix parties mask index party : Nat) : Nat :=
  index / radix ^ ((List.range parties).filter fun later =>
    party < later && !mask.testBit later).length % radix

/-- The tuple of a value for the candidate and the digits of an index for the revealed
parties, 0 for the other pending parties. -/
def fullTuple (radix parties value index : Nat) (key : Key) : List Nat :=
  (List.range parties).map fun party =>
    if party = key.party then value
    else if key.subsetMask.testBit party then 0
    else digitOf radix parties key.subsetMask index party

/-- A key of a history in which the candidate has a possible answer. -/
structure Admissible [Zero α] [Add α] [Div α] [BEq α] [LT α] (box : Box α) (key : Key) : Prop where
  family : key.family = .normalised
  bound : key.subsetMask < 2 ^ box.partyCount
  size : (key.pending box.partyCount).length = key.subsetSize
  nonempty : 0 < key.subsetSize
  proper : key.subsetSize < box.partyCount
  candidate : key.party ∈ key.pending box.partyCount
  input : key.inputValue < box.inputRange
  inputTuple : key.inputTuple < box.inputRange ^ (box.partyCount - key.subsetSize)
  outputTuple : key.outputTuple < box.outputRange ^ (box.partyCount - key.subsetSize)
  possible : ∃ output < box.outputRange, ∃ p,
    box.normalisedProb
        (key.fullTuple box.inputRange box.partyCount key.inputValue key.inputTuple)
        (key.fullTuple box.outputRange box.partyCount output key.outputTuple)
        (key.party :: (key.pending box.partyCount).filter (· ≠ key.party))
      = .ok p ∧ 0 < p

/-- The guard that belongs to a key: the output module is not ready, the copies of the
inputs hold what the candidate and the revealed parties were asked, and every output holds
what was revealed, or -1. -/
def guard (box : Box α) (key : Key) : List Binding :=
  ⟨Identifier.readyFlag, .bool false⟩
    :: (box.inputs.zipIdx.filterMap fun (input, party) =>
      if party = key.party then some ⟨Identifier.seenVariable input, .int key.inputValue⟩
      else if key.subsetMask.testBit party then none
      else some ⟨Identifier.seenVariable input,
        .int (digitOf box.inputRange box.partyCount key.subsetMask key.inputTuple party)⟩)
    ++ box.outputs.zipIdx.map fun (output, party) =>
      ⟨output, .int (if key.subsetMask.testBit party then -1
        else digitOf box.outputRange box.partyCount key.subsetMask key.outputTuple party)⟩

end Key

namespace Disclosure

variable {α : Type} {box : Box α} {history : History}

/-- In an ascending list the elements after one are those greater than it. -/
theorem length_filter_greater {elements : List Nat} (ascending : elements.Pairwise (· < ·))
    {position element : Nat} (found : elements[position]? = some element) :
    (elements.filter (element < ·)).length = elements.length - 1 - position := by
  induction ascending generalizing position with
  | nil => simp at found
  | @cons first rest before _ inductionHypothesis =>
    cases position with
    | zero =>
      obtain rfl : first = element := by simpa using found
      have all : rest.filter (first < ·) = rest :=
        List.filter_eq_self.mpr fun other member => by simpa using before other member
      simp [all]
    | succ position =>
      have later : rest[position]? = some element := by simpa using found
      have smaller : ¬ element < first := (before element (List.mem_of_getElem? later)).le.not_gt
      simp only [List.filter_cons, decide_eq_true_eq, if_neg smaller, inductionHypothesis later,
        List.length_cons]
      omega

namespace History

/-- What is known of a party is the digit of the index that belongs to it. -/
theorem known?_eq_digit (listed : history.Listed box) {radix index : Nat} {values : List Nat}
    (indexed : (Tuple.walk radix history.revealed.length)[index]? = some values) {party : Nat}
    (present : party < box.partyCount) :
    history.known? values party
      = if history.mask.testBit party then none
        else some (Key.digitOf radix box.partyCount history.mask index party) := by
  obtain ⟨inWalk, atIndex⟩ := List.getElem?_eq_some_iff.mp indexed
  have fits := Tuple.mem_walk.mp (List.mem_of_getElem? indexed)
  have placed : Tuple.place radix 0 values = index := by
    rw [← atIndex]
    exact Tuple.place_getElem_walk inWalk
  unfold known?
  cases found : history.revealed.idxOf? party with
  | none =>
    have hidden := List.idxOf?_eq_none_iff.mp found
    rw [listed.mem_revealed] at hidden
    simp_all
  | some slot =>
    obtain ⟨inside, same, -⟩ := List.idxOf?_eq_some_iff.mp found
    have member : party ∈ history.revealed := List.mem_of_getElem same
    have ascending : history.revealed.Pairwise (· < ·) := by
      rw [listed.revealed]
      exact List.pairwise_lt_range.filter _
    have after := length_filter_greater ascending
      ((List.getElem?_eq_getElem inside).trans (congrArg some same))
    have count : ((List.range box.partyCount).filter fun later =>
        party < later && !history.mask.testBit later).length
        = history.revealed.length - 1 - slot := by
      rw [← after, listed.revealed, List.filter_filter]
    rw [if_neg (by simp [((listed.mem_revealed party).mp member).2]), Option.bind_some,
      Tuple.getElem?_of_place fits inside, placed, Key.digitOf, count]

/-- The tuples of the query are those of the key. -/
theorem fullTuple_eq_key (listed : history.Listed box) {ε : Type} {radix index : Nat}
    {values : List Nat}
    (indexed : (Tuple.walk radix history.revealed.length)[index]? = some values) (value : Nat) :
    (history.fullTuple box.partyCount value values : Attempt ε (List Nat))
      = .ok (history.key.fullTuple radix box.partyCount value index) := by
  have fits := Tuple.mem_walk.mp (List.mem_of_getElem? indexed)
  rw [history.fullTuple_eq_ok fits.1]
  congr 1
  apply List.map_congr_left
  intro party member
  rw [known?_eq_digit listed indexed (List.mem_range.mp member)]
  by_cases isPending : history.mask.testBit party
  · simp [History.key, isPending]
  · simp [History.key, isPending]

/-- The pending parties of the query are those of the key. -/
theorem order_eq_key (listed : history.Listed box) :
    history.order = history.key.party
      :: (history.key.pending box.partyCount).filter (· ≠ history.key.party) :=
  listed.order

section

variable (listed : history.Listed box) (shaped : box.Shaped) (storable : box.Storable)

include listed shaped storable

/-- The equation on the copy of one party's input is that of the key. -/
theorem seen?_eq_key {party : Nat} (present : party < box.partyCount) (input : String) :
    (history.seen? party).map (fun value =>
        (⟨Identifier.seenVariable input, intValue value⟩ : Binding))
      = if party = history.candidate then
          some ⟨Identifier.seenVariable input, .int history.input⟩
        else if history.mask.testBit party then none
        else some ⟨Identifier.seenVariable input, .int
          (Key.digitOf box.inputRange box.partyCount history.mask history.inputTuple party)⟩ := by
  have words : ∀ value ∈ history.seen? party, intValue value = .int value := fun value asked =>
    intValue_of_le ((listed.seen?_lt asked).le.trans (shaped.inputRange_le storable))
  have asWords : (history.seen? party).map (fun value =>
        (⟨Identifier.seenVariable input, intValue value⟩ : Binding))
      = (history.seen? party).map fun value => ⟨Identifier.seenVariable input, .int value⟩ :=
    Option.map_congr fun value asked => by rw [words value asked]
  rw [asWords, seen?, known?_eq_digit listed listed.knownInputs present]
  by_cases isCandidate : party = history.candidate
  · simp [isCandidate]
  · by_cases isPending : history.mask.testBit party <;> simp [isCandidate, isPending]

/-- The value of one party's output is that of the key. -/
theorem holding_eq_key {party : Nat} (present : party < box.partyCount) :
    holding (history.known? history.knownOutputs party)
      = .int (if history.mask.testBit party then -1 else
          Key.digitOf box.outputRange box.partyCount history.mask history.outputTuple party) := by
  have known := known?_eq_digit listed listed.knownOutputs present
  rw [known]
  by_cases isPending : history.mask.testBit party
  · simp [isPending, holding, unset]
  · rw [if_neg isPending] at known
    have word := (listed.known?_lt known).le.trans (shaped.outputRange_le storable)
    simp [isPending, holding, intValue_of_le word]

/-- The guard of a history is that of its key. -/
theorem guard_eq_key {ε : Type} :
    (history.guard box : Attempt ε (List Binding)) = .ok (history.key.guard box) := by
  have seen : (history.seenGuard box : Attempt ε (List Binding))
      = .ok (box.inputs.zipIdx.filterMap fun entry => (history.seen? entry.2).map fun value =>
          ⟨Identifier.seenVariable entry.1, intValue value⟩) := by
    refine (Attempt.filterMapM_eq_ok_iff _ _ _).mpr ⟨_, Attempt.mapM_eq_map _ _ _
      fun entry _ => seenBinding_eq_ok listed entry.2 entry.1, ?_⟩
    rw [List.filterMap_map]
    rfl
  have outputs : (history.outputGuard box : Attempt ε (List Binding))
      = .ok (box.outputs.zipIdx.map fun entry =>
          ⟨entry.1, holding (history.known? history.knownOutputs entry.2)⟩) := by
    refine Attempt.mapM_eq_map _ _ _ fun entry _ => ?_
    simp only [revealedValue_eq_ok listed.outputs_fit.1, bind, Except.bind, pure, Except.pure]
    cases history.known? history.knownOutputs entry.2 <;> rfl
  refine (Attempt.bind_eq_ok_iff _ _ _).mpr ⟨_, seen,
    (Attempt.bind_eq_ok_iff _ _ _).mpr ⟨_, outputs, ?_⟩⟩
  refine congrArg Except.ok (congrArg₂ _ (congrArg (List.cons _) ?_) ?_)
  · apply List.filterMap_congr
    rintro ⟨input, party⟩ member
    exact seen?_eq_key listed shaped storable
      (List.getElem?_eq_some_iff.mp (List.mem_zipIdx_iff_getElem?.mp member)).1 input
  · apply List.map_congr_left
    rintro ⟨output, party⟩ member
    have present : party < box.partyCount := shaped.balanced ▸
      (List.getElem?_eq_some_iff.mp (List.mem_zipIdx_iff_getElem?.mp member)).1
    exact congrArg (Binding.mk output) (holding_eq_key listed shaped storable present)

end

/-- The parties are pending or revealed. -/
theorem length_revealed (listed : history.Listed box) :
    history.order.length + history.revealed.length = box.partyCount := by
  have parts := List.length_eq_length_filter_add (l := List.range box.partyCount)
    history.mask.testBit
  rw [List.length_range] at parts
  rw [listed.length_order, ← PartySet.length_members listed.bound, listed.revealed, ← parts]

section

variable [Zero α] [Add α] [Div α] [BEq α] [LT α] [DecidableLT α]

/-- A history has a branch exactly if the query of its key has a positive answer. -/
theorem branches_ne_nil_iff (listed : history.Listed box) {branches : List (Branch α)}
    (branched : history.branches box = .ok branches) :
    branches ≠ [] ↔ ∃ output < box.outputRange, ∃ p,
      box.normalisedProb
          (history.key.fullTuple box.inputRange box.partyCount history.input history.inputTuple)
          (history.key.fullTuple box.outputRange box.partyCount output history.outputTuple)
          history.order = .ok p ∧ 0 < p := by
  obtain ⟨input, inputMade, rest⟩ := (Attempt.bind_eq_ok_iff _ _ _).mp branched
  obtain ⟨output, -, rest⟩ := (Attempt.bind_eq_ok_iff _ _ _).mp rest
  obtain ⟨values, valued, same⟩ := (Attempt.bind_eq_ok_iff _ _ _).mp rest
  obtain rfl := Except.ok.inj same
  rw [fullTuple_eq_key listed listed.knownInputs] at inputMade
  obtain rfl := Except.ok.inj inputMade
  simp only [fullTuple_eq_key listed listed.knownOutputs, bind, Except.bind] at valued
  rw [Ne, List.map_eq_nil_iff]
  constructor
  · intro nonempty
    obtain ⟨⟨value, p⟩, member⟩ := List.exists_mem_of_ne_nil values nonempty
    obtain ⟨inside, known, positive⟩ := (mem_positiveValues valued value p).mp member
    exact ⟨value, inside, p, known, positive⟩
  · rintro ⟨value, inside, p, known, positive⟩
    exact List.ne_nil_of_mem ((mem_positiveValues valued value p).mpr ⟨inside, known, positive⟩)

/-- The key of a command for a later answer is admissible. -/
theorem admissible_of_command? (listed : history.Listed box) {command : Command α}
    (succeeded : history.command? box = .ok (some command)) : command.key.Admissible box := by
  obtain ⟨key, -, -, branched, nonempty⟩ := command?_eq_some succeeded
  rw [key]
  have whole := length_revealed listed
  have others : box.partyCount - history.order.length = history.revealed.length := by omega
  have begun : 0 < history.revealed.length := List.length_pos_iff.mpr listed.begun
  have pending : 0 < history.order.length := by simp [listed.order]
  have inputIndex := (List.getElem?_eq_some_iff.mp listed.knownInputs).1
  have outputIndex := (List.getElem?_eq_some_iff.mp listed.knownOutputs).1
  rw [Tuple.length_walk] at inputIndex outputIndex
  exact {
    family := rfl
    bound := listed.bound
    size := (PartySet.length_members listed.bound).trans listed.length_order.symm
    nonempty := pending
    proper := show history.order.length < box.partyCount by omega
    candidate := List.mem_filter.mpr ⟨List.mem_range.mpr listed.candidate, listed.pending⟩
    input := listed.input
    inputTuple := show _ < _ ^ (box.partyCount - history.order.length) by rwa [others]
    outputTuple := show _ < _ ^ (box.partyCount - history.order.length) by rwa [others]
    possible := by
      rw [← order_eq_key listed]
      exact (branches_ne_nil_iff listed branched).mp nonempty }

omit [DecidableLT α] in
/-- Every admissible key belongs to a listed history. -/
theorem exists_listed_of_admissible {key : Key} (admissible : key.Admissible box) :
    ∃ history : History, history.Listed box ∧ history.key = key := by
  obtain ⟨present, pending⟩ := List.mem_filter.mp admissible.candidate
  have parts := List.length_eq_length_filter_add (l := List.range box.partyCount)
    key.subsetMask.testBit
  have size : ((List.range box.partyCount).filter key.subsetMask.testBit).length = key.subsetSize :=
    admissible.size
  rw [List.length_range, size] at parts
  obtain ⟨revealed, isRevealed⟩ : ∃ revealed : List Nat, revealed
    = (List.range box.partyCount).filter fun party => !key.subsetMask.testBit party := ⟨_, rfl⟩
  rw [← isRevealed] at parts
  have proper := admissible.proper
  have others : revealed.length = box.partyCount - key.subsetSize := by omega
  have inputIndex : key.inputTuple < (Tuple.walk box.inputRange revealed.length).length := by
    rw [Tuple.length_walk, others]
    exact admissible.inputTuple
  have outputIndex : key.outputTuple < (Tuple.walk box.outputRange revealed.length).length := by
    rw [Tuple.length_walk, others]
    exact admissible.outputTuple
  have listed : History.Listed box {
      mask := key.subsetMask
      revealed := revealed
      order := key.party :: (key.pending box.partyCount).filter (· ≠ key.party)
      candidate := key.party
      input := key.inputValue
      inputTuple := key.inputTuple
      knownInputs := (Tuple.walk box.inputRange revealed.length)[key.inputTuple]
      outputTuple := key.outputTuple
      knownOutputs := (Tuple.walk box.outputRange revealed.length)[key.outputTuple] } := {
    bound := admissible.bound
    begun := List.ne_nil_of_length_pos (show 0 < revealed.length by omega)
    revealed := isRevealed
    candidate := List.mem_range.mp present
    pending := pending
    order := rfl
    input := admissible.input
    knownInputs := List.getElem?_eq_getElem inputIndex
    knownOutputs := List.getElem?_eq_getElem outputIndex }
  refine ⟨_, listed, ?_⟩
  have counted := listed.length_order
  rw [← PartySet.length_members listed.bound, size] at counted
  obtain ⟨family, subsetSize, subsetMask, party, inputValue, inputTuple, outputTuple⟩ := key
  obtain rfl : family = .normalised := admissible.family
  exact congrArg (Key.mk Family.normalised · subsetMask party inputValue inputTuple outputTuple)
    counted

/-- An admissible key is the key of a command that is made. -/
theorem exists_command_of_admissible (shaped : box.Shaped) {key : Key}
    (admissible : key.Admissible box) :
    ∃ history : History, history.Listed box
      ∧ ∃ command, history.command? box = .ok (some command) ∧ command.key = key := by
  obtain ⟨history, listed, rfl⟩ := exists_listed_of_admissible admissible
  obtain ⟨made, succeeded⟩ := exists_command? shaped listed
  obtain ⟨branches, branched, ⟨-, none⟩ | ⟨guard, -, -, rfl⟩⟩ := command?_cases succeeded
  · have possible := admissible.possible
    rw [← order_eq_key listed] at possible
    exact ((branches_ne_nil_iff listed branched).mpr possible none).elim
  · exact ⟨history, listed, _, succeeded, rfl⟩

end

end History

variable [Zero α] [Add α] [Div α] [BEq α] [Scalar α] [LT α] [DecidableLT α]

/-- A command of the output module that is of the family of later answers is made for a
listed history. -/
theorem Disclosing.exists_history {reduced normalised : List (Command α)}
    (made : Disclosing box reduced normalised) {command : Command α}
    (member : command ∈ inputSyncCommands box ++ reduced ++ normalised)
    (family : command.key.family = .normalised) :
    ∃ history : History, history.Listed box ∧ history.command? box = .ok (some command) := by
  rw [List.mem_append, List.mem_append, mem_inputSyncCommands] at member
  rcases member with (⟨party, input, value, -, -, rfl⟩ | inReduced) | inNormalised
  · cases family
  · rw [(made.reduced_family inReduced).2] at family
    cases family
  · obtain ⟨masks, -, exactly, commands⟩ := made.later
    obtain ⟨history, listed, succeeded⟩ :=
      (Attempt.mem_filterMapM _ _ _ commands command).mp inNormalised
    exact ⟨history, (exactly history).mp listed, succeeded⟩

/-- Commands and keys correspond one to one, in order. In every module of a generated model
the keys ascend strictly, and in the output module the commands stand as they were made.
A key of the family of later answers is there exactly if it is admissible, and its command
has the guard that belongs to it. -/
theorem commands_match_keys (storable : box.Storable) {model : Model α}
    (generated : Disclosure.model box = .ok model) :
    (∀ part ∈ model.modules, (part.commands.map (·.key.ranks)).Pairwise (· < ·))
    ∧ ∃ output reduced normalised,
        model.modules = inputParts box ++ [output] ∧ output.name = Identifier.outputModule
        ∧ reducedCommands box = .ok reduced ∧ normalisedCommands box = .ok normalised
        ∧ output.commands = inputSyncCommands box ++ reduced ++ normalised
        ∧ (∀ key : Key, key.family = .normalised →
          ((∃ command ∈ output.commands, command.key = key) ↔ key.Admissible box))
        ∧ ∀ command ∈ output.commands, command.key.family = .normalised →
          command.guard = command.key.guard box := by
  obtain ⟨complete, reduced, normalised, first, later, modules⟩ := parts_of_model generated
  have shaped := Box.shaped_of_lacking? complete
  have few := Box.few_of_lacking? complete
  have made := disclosing_of_ok few first later
  have ascending := ascending_output few first later
  have unsorted : (outputPart box reduced normalised).commands
      = inputSyncCommands box ++ reduced ++ normalised := Key.sort_of_ascending _ ascending
  refine ⟨?_, outputPart box reduced normalised, reduced, normalised, modules, rfl, first, later,
    unsorted, ?_, ?_⟩
  · intro part member
    rw [List.pairwise_map]
    rw [modules, List.mem_append, mem_inputParts, List.mem_singleton] at member
    rcases member with ⟨party, input, -, rfl⟩ | rfl
    · exact ascending_inputPart input party
    · exact unsorted ▸ ascending
  · intro key family
    constructor
    · rintro ⟨command, member, rfl⟩
      obtain ⟨history, listed, succeeded⟩ := made.exists_history (unsorted ▸ member) family
      exact History.admissible_of_command? listed succeeded
    · intro admissible
      obtain ⟨history, listed, command, succeeded, isKey⟩ :=
        History.exists_command_of_admissible shaped admissible
      obtain ⟨masks, -, exactly, commands⟩ := made.later
      refine ⟨command, ?_, isKey⟩
      rw [unsorted]
      exact List.mem_append_right _ ((Attempt.mem_filterMapM _ _ _ commands command).mpr
        ⟨history, (exactly history).mpr listed, succeeded⟩)
  · intro command member family
    obtain ⟨history, listed, succeeded⟩ := made.exists_history (unsorted ▸ member) family
    obtain ⟨key, -, guarded, -⟩ := command?_eq_some succeeded
    rw [History.guard_eq_key listed shaped storable] at guarded
    rw [key, Except.ok.inj guarded]

/-- Three parties with one input value each, whose outputs are all equally likely. -/
def threefoldBox : Box Rat where
  inputs := ["x", "y", "z"]
  outputs := ["a", "b", "c"]
  inputRange := 1
  outputRange := 2
  matrix := [List.replicate 8 (1 / 8)]

/-- While the middle one of three parties is pending, the index 2 of the known outputs says
that the first party answered 1 and the last one 0. -/
theorem threefoldBox_middle :
    ∃ model, Disclosure.model threefoldBox = .ok model
      ∧ ∃ part ∈ model.modules, ∃ command ∈ part.commands,
        command.key = ⟨.normalised, 1, 2, 1, 0, 0, 2⟩
        ∧ command.guard = [⟨"ready", .bool false⟩, ⟨"x_seen", .int 0⟩, ⟨"y_seen", .int 0⟩,
          ⟨"z_seen", .int 0⟩, ⟨"a", .int 1⟩, ⟨"b", .int (-1)⟩, ⟨"c", .int 0⟩] := by
  have complete : lacking? threefoldBox = none := by decide +kernel
  obtain ⟨model, generated⟩ := exists_model (Box.shaped_of_lacking? complete)
    (Box.few_of_lacking? complete)
  obtain ⟨-, output, _, _, modules, -, -, -, -, exactly, guarded⟩ :=
    commands_match_keys (by decide) generated
  have admissible : (⟨.normalised, 1, 2, 1, 0, 0, 2⟩ : Key).Admissible threefoldBox := {
    family := rfl
    bound := by decide
    size := by decide
    nonempty := by decide
    proper := by decide
    candidate := by decide
    input := by decide
    inputTuple := by decide
    outputTuple := by decide
    possible := ⟨0, by decide, 1 / 2, Attempt.eq_ok_of_toOption (by decide +kernel),
      by decide +kernel⟩ }
  obtain ⟨command, member, isKey⟩ := (exactly _ rfl).mpr admissible
  refine ⟨model, generated, output, by simp [modules], command, member, isKey, ?_⟩
  rw [guarded command member (by rw [isKey]), isKey]
  decide +kernel

end Disclosure

end Nonlocal
