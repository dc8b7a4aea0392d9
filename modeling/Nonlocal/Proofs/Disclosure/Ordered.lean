import Nonlocal.Proofs.Disclosure.Modules
import Nonlocal.Proofs.Model.Ordered

/-!
# Commands are made in the order of their keys

Each family of commands is made by nested loops, and the ranks of a key are the counters of
these loops from the outermost one inwards. Leaving commands out does not disturb their
order, and the families are made in the order of their ranks. So the commands of every
module ascend strictly in their keys: no two commands share a key, and sorting the output
module leaves its commands where they were made.
-/

namespace Nonlocal.Disclosure

variable {α : Type} {box : Box α}

/-- Commands whose keys ascend strictly. -/
def Ascending (commands : List (Command α)) : Prop :=
  commands.Pairwise fun first second => first.key.ranks < second.key.ranks

/-- The commands of an input module ascend: a coin is tossed before values are handed over
in their order. -/
theorem ascending_inputPart (input : String) (party : Nat) :
    Ascending (inputPart box input party).commands := by
  refine List.pairwise_cons.mpr ⟨?_, ?_⟩
  · intro command member
    obtain ⟨value, -, rfl⟩ := List.mem_map.mp member
    exact List.cons_lt_cons_iff.mpr (Or.inl Nat.zero_lt_one)
  · apply ascending_of_drop [Family.consume.rank, 0, 0, party]
    · intro command member
      obtain ⟨value, -, rfl⟩ := List.mem_map.mp member
      rfl
    · exact ascending_map id (fun command : Command α => command.key.inputValue)
        List.pairwise_lt_range fun value => rfl

/-- The copying commands ascend, party by party and value by value. -/
theorem ascending_inputSyncCommands : Ascending (inputSyncCommands box) := by
  apply ascending_of_drop [Family.inputSync.rank, 0, 0]
  · intro command member
    obtain ⟨party, input, value, -, -, rfl⟩ := (mem_inputSyncCommands command).mp member
    rfl
  · refine ascending_flatMap Prod.snd (fun command : Command α => command.key.party)
      (ascending_zipIdx _) ?_ ?_
    · rintro ⟨input, party⟩ - command member
      obtain ⟨value, -, rfl⟩ := List.mem_map.mp member
      rfl
    · rintro ⟨input, party⟩ -
      exact ascending_map id (fun command : Command α => command.key.inputValue)
        List.pairwise_lt_range fun value => rfl

/-- The questions ascend, party by party and input by input. -/
theorem ascending_questions : (questions box).Pairwise fun first second =>
    [first.party, first.input] < [second.party, second.input] := by
  refine ascending_flatMap id Question.party List.pairwise_lt_range ?_ ?_
  · intro party _ question member
    obtain ⟨input, -, rfl⟩ := List.mem_map.mp member
    rfl
  · intro party _
    exact ascending_map id Question.input List.pairwise_lt_range
      fun input => rfl

/-- The number of pending parties of a listed history is the size of their set. -/
theorem History.Listed.length_order {history : History} (listed : history.Listed box) :
    history.order.length = PartySet.population history.mask := by
  have once : ((List.range box.partyCount).filter history.mask.testBit).Nodup :=
    List.nodup_range.filter _
  have member : history.candidate ∈ (List.range box.partyCount).filter history.mask.testBit :=
    List.mem_filter.mpr ⟨List.mem_range.mpr listed.candidate, listed.pending⟩
  have others : ((List.range box.partyCount).filter history.mask.testBit).filter
        (· ≠ history.candidate)
      = ((List.range box.partyCount).filter history.mask.testBit).erase history.candidate := by
    rw [once.erase_eq_filter]
    apply List.filter_congr
    intro party _
    simp [bne, Bool.beq_eq_decide_eq]
  rw [listed.order, others, ← PartySet.length_members listed.bound]
  exact (List.perm_cons_erase member).length_eq.symm

/-- The histories of one set of pending parties ascend, candidate by candidate, input by
input, and index by index of what is known. -/
theorem ascending_historiesOf (inputRange outputRange parties mask : Nat) {pending : List Nat}
    (inOrder : pending.Pairwise (· < ·)) :
    (historiesOf inputRange outputRange parties mask pending).Pairwise fun first second =>
      first.key.ranks.drop 3 < second.key.ranks.drop 3 := by
  refine ascending_flatMap id History.candidate inOrder ?_ ?_
  · intro candidate _ history member
    obtain ⟨input, -, inner⟩ := List.mem_flatMap.mp member
    obtain ⟨inputs, -, innermost⟩ := List.mem_flatMap.mp inner
    obtain ⟨outputs, -, rfl⟩ := List.mem_map.mp innermost
    rfl
  intro candidate _
  refine ascending_flatMap id History.input List.pairwise_lt_range ?_ ?_
  · intro input _ history member
    obtain ⟨inputs, -, inner⟩ := List.mem_flatMap.mp member
    obtain ⟨outputs, -, rfl⟩ := List.mem_map.mp inner
    rfl
  intro input _
  refine ascending_flatMap Prod.snd History.inputTuple
    (ascending_zipIdx _) ?_ ?_
  · rintro ⟨inputs, inputTuple⟩ - history member
    obtain ⟨outputs, -, rfl⟩ := List.mem_map.mp member
    rfl
  rintro ⟨inputs, inputTuple⟩ -
  exact ascending_map Prod.snd History.outputTuple (ascending_zipIdx _)
    fun outputs => rfl

/-- The histories ascend set by set of pending parties, the smaller sets first. -/
theorem ascending_histories {masks : List Nat} (ordered : masks.Pairwise PartySet.Precedes)
    (exactly : ∀ mask, mask ∈ masks ↔ mask < 2 ^ box.partyCount ∧ 0 < PartySet.population mask
      ∧ PartySet.population mask < box.partyCount) :
    (histories box masks).Pairwise fun first second => first.key.ranks < second.key.ranks := by
  have first {mask : Nat} (isMask : mask ∈ masks) {history : History}
      (member : history ∈ historiesOf box.inputRange box.outputRange box.partyCount mask
        ((List.range box.partyCount).filter mask.testBit)) :
      history.key.ranks.take 3 = [Family.normalised.rank, PartySet.population mask, mask] := by
    have listed := (mem_histories exactly history).mp (List.mem_flatMap.mpr ⟨mask, isMask, member⟩)
    have sameMask : history.mask = mask := by
      obtain ⟨candidate, -, outer⟩ := List.mem_flatMap.mp member
      obtain ⟨input, -, inner⟩ := List.mem_flatMap.mp outer
      obtain ⟨inputs, -, innermost⟩ := List.mem_flatMap.mp inner
      obtain ⟨outputs, -, rfl⟩ := List.mem_map.mp innermost
      rfl
    simp [Key.ranks, History.key, listed.length_order, sameMask]
  rw [histories, List.pairwise_flatMap]
  constructor
  · intro mask isMask
    apply ascending_of_drop [Family.normalised.rank, PartySet.population mask, mask]
    · exact fun history member => first isMask member
    · exact ascending_historiesOf _ _ _ _ (List.pairwise_lt_range.filter _)
  · refine (List.Pairwise.and_mem.mp ordered).imp ?_
    rintro mask other ⟨isMask, isOther, precedes⟩ left leftMember right rightMember
    rw [← List.take_append_drop 3 left.key.ranks, ← List.take_append_drop 3 right.key.ranks,
      first isMask leftMember, first isOther rightMember]
    rcases precedes with smaller | ⟨same, smaller⟩
    · simp [List.cons_lt_cons_iff, smaller]
    · simp [List.cons_lt_cons_iff, same, smaller]

/-- Commands that are made one by one, some left out, ascend as what they are made from. -/
theorem ascending_of_filterMapM {β ε : Type} {attempt : β → Except ε (Option (Command α))}
    {elements : List β} {commands : List (Command α)}
    (succeeded : elements.filterMapM attempt = .ok commands) (ranks : β → List Nat)
    (named : ∀ element command, attempt element = .ok (some command) →
      command.key.ranks = ranks element)
    (ordered : elements.Pairwise fun first second => ranks first < ranks second) :
    Ascending commands := by
  have kept := Attempt.sublist_of_filterMapM _ _ _ succeeded ranks
    (fun command => command.key.ranks) named
  exact List.pairwise_map.mp ((List.pairwise_map.mpr ordered).sublist kept)

section

variable [Zero α] [Add α] [Div α] [BEq α] [Scalar α] [LT α] [DecidableLT α]

/-- The commands for first answers ascend with their questions. -/
theorem ascending_reduced {reduced : List (Command α)}
    (made : reducedCommands box = .ok reduced) : Ascending reduced := by
  apply ascending_of_filterMapM (reducedCommands_eq_ok made) fun question =>
    [Family.reduced.rank, box.partyCount, 0, question.party, question.input, 0, 0]
  · intro question command succeeded
    obtain ⟨_, _, _, _, _, spec⟩ := reducedCommand?_spec succeeded
    rw [(spec command rfl).2.2]
    rfl
  · refine ascending_questions.imp ?_
    intro first second before
    simpa [List.cons_lt_cons_iff] using before

omit [Scalar α] in
/-- The commands for later answers ascend with their histories. -/
theorem ascending_normalised (few : box.partyCount ≤ PartySet.maxParties)
    {normalised : List (Command α)} (made : normalisedCommands box = .ok normalised) :
    Ascending normalised := by
  obtain ⟨masks, ordered, exactly, succeeded⟩ := normalisedCommands_eq_ok few made
  apply ascending_of_filterMapM succeeded fun history => history.key.ranks
  · intro history command given
    rw [(command?_eq_some given).1]
  · exact ascending_histories ordered exactly

/-- The commands of the output module ascend as they are made, family by family. -/
theorem ascending_output (few : box.partyCount ≤ PartySet.maxParties)
    {reduced normalised : List (Command α)} (first : reducedCommands box = .ok reduced)
    (later : normalisedCommands box = .ok normalised) :
    Ascending (inputSyncCommands box ++ reduced ++ normalised) := by
  have made := disclosing_of_ok few first later
  have before {left right : Command α}
      (smaller : left.key.family.rank < right.key.family.rank) :
      left.key.ranks < right.key.ranks := List.cons_lt_cons_iff.mpr (Or.inl smaller)
  have copying : ∀ command ∈ inputSyncCommands box, command.key.family = .inputSync := by
    intro command member
    obtain ⟨party, input, value, -, -, rfl⟩ := (mem_inputSyncCommands command).mp member
    rfl
  refine List.pairwise_append.mpr ⟨List.pairwise_append.mpr
    ⟨ascending_inputSyncCommands, ascending_reduced first, ?_⟩, ascending_normalised few later, ?_⟩
  · intro copy isCopy command member
    apply before
    rw [copying copy isCopy, (made.reduced_family member).2]
    decide
  · intro earlier isEarlier command member
    apply before
    rw [(made.normalised_family member).2]
    rcases List.mem_append.mp isEarlier with isCopy | inReduced
    · rw [copying earlier isCopy]
      decide
    · rw [(made.reduced_family inReduced).2]
      decide

end

end Nonlocal.Disclosure
