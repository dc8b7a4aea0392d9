import Nonlocal.Proofs.Answers
import Nonlocal.Proofs.Box.Answered

/-!
# Queries answer whatever the box

A query on a box of any shape may be refused, but it does not fault. Positions at which
digits are put in are those of parties, and there is one digit less than parties. The
count of the joint sum is the one that needs an argument: the rows that are looked up
ascend along the walk over the inputs of the others, so a lookup fails before there are
more assignments than rows, and a list has fewer rows than there are words.
-/

namespace Nonlocal

namespace Tuple

/-- A greater beginning writes a greater number. -/
theorem place_mono {radix left right : Nat} (le : left ≤ right) (digits : List Nat) :
    place radix left digits ≤ place radix right digits := by
  induction digits generalizing left right with
  | nil => exact le
  | cons digit rest inductionHypothesis =>
    exact inductionHypothesis (Nat.add_le_add_right (Nat.mul_le_mul_right radix le) digit)

/-- One more digit does not make the number smaller. -/
theorem place_le_place_insertIdx {radix : Nat} (positive : 0 < radix) (index value : Nat)
    {digits : List Nat} {position : Nat} (room : position ≤ digits.length) :
    place radix index digits ≤ place radix index (digits.insertIdx position value) := by
  induction digits generalizing index position with
  | nil =>
    obtain rfl : position = 0 := Nat.le_zero.mp room
    exact (Nat.le_mul_of_pos_right index positive).trans (Nat.le_add_right _ value)
  | cons digit rest inductionHypothesis =>
    cases position with
    | zero =>
      exact place_mono ((Nat.le_mul_of_pos_right index positive).trans (Nat.le_add_right _ value)) _
    | succ position => exact inductionHypothesis _ (Nat.le_of_succ_le_succ room)

/-- An index that is found is the number that the digits write. -/
theorem eq_place_of_encodeFrom {radix length position index result : Nat} {digits : List Nat}
    (encoded : encodeFrom radix length position index digits = .ok result) :
    result = place radix index digits := by
  induction digits generalizing position index with
  | nil => exact (Except.ok.inj encoded).symm
  | cons digit rest inductionHypothesis =>
    simp only [encodeFrom] at encoded
    split at encoded
    · split at encoded
      · next added =>
        obtain ⟨product, multiplied, summed⟩ := Option.bind_eq_some_iff.mp added
        have exactly : ∀ {value word : Nat}, Word.check? value = some word → word = value := by
          intro value word checked
          simp only [Word.check?, Option.ite_none_right_eq_some, Option.some.injEq] at checked
          exact checked.2.symm
        obtain rfl := exactly multiplied
        obtain rfl := exactly summed
        exact inductionHypothesis encoded
      · cases encoded
    · cases encoded

end Tuple

namespace Box

variable {α : Type} {box : Box α}

/-- A lookup that succeeds finds its row in the matrix. -/
theorem place_lt_of_prob {input output : List Nat} {value : α}
    (found : box.prob input output = .ok value) :
    Tuple.place box.inputRange 0 input < box.matrix.length := by
  unfold prob at found
  split at found
  · cases found
  next row indexed =>
  split at found
  · cases found
  split at found
  · next atCell =>
    obtain ⟨cells, stored, -⟩ := Option.bind_eq_some_iff.mp atCell
    have encoded : Tuple.encode box.inputRange input = .ok row := by
      unfold index at indexed
      split at indexed
      · cases indexed
      split at indexed
      · next same => rw [← Except.ok.inj indexed]; exact same
      · cases indexed
      · cases indexed
    rw [← Tuple.eq_place_of_encodeFrom encoded]
    exact (List.getElem?_eq_some_iff.mp stored).1
  · cases found

/-- A lookup answers. -/
theorem queryProb_answers (box : Box α) (input output : List Nat) :
    (box.queryProb input output).Answers :=
  (Attempt.Answers.ofExcept _).mapRefusal _

/-- Comparing the pending parties with those of the box answers. -/
theorem ensurePending_answers (parties : Nat) (listed pending : List Nat) :
    (ensurePending parties listed pending).Answers := by
  induction pending generalizing listed with
  | nil => exact .ok ()
  | cons party rest inductionHypothesis =>
    rw [ensurePending]
    split
    · exact .refuse _
    · exact inductionHypothesis _

/-- Comparing a value with its range answers, and a value that is not refused is in it. -/
theorem ensureValue_answers (box : Box α) (side : Side) (value : Nat) :
    (box.ensureValue side value).Answers
      ∧ (box.ensureValue side value = .ok () → value < box.range side) := by
  unfold ensureValue
  split
  · next inside => exact ⟨.ok (), fun _ => inside⟩
  · refine ⟨.refuse _, fun passed => ?_⟩
    cases passed

variable {party asked told : Nat}

/-- Where there is a party, the others can be counted. -/
theorem sub_partyCount_of_lt {ε : Type} (present : party < box.partyCount) :
    (Word.sub box.partyCount 1 : Attempt ε Nat) = .ok (box.partyCount - 1) :=
  if_pos (by omega)

/-- A digit can be put in at the position of a party. -/
theorem insertAt_of_fits {ε : Type} {radix : Nat} {others : List Nat}
    (fits : Tuple.Fits radix (box.partyCount - 1) others) (present : party < box.partyCount)
    (value : Nat) :
    (Tuple.insertAt others party value : Attempt ε (List Nat))
      = .ok (others.insertIdx party value) :=
  Tuple.insertAt_eq_ok (by rw [fits.1]; omega) value

section

variable [Add α]

/-- The outputs of the others are gone through. -/
theorem foldTuples_insertAt_answers (box : Box α) (input : List Nat) (told : Nat)
    (present : party < box.partyCount) (start : α) :
    Attempt.Answers (Tuple.foldTuples box.outputRange (box.partyCount - 1)
      (fun total otherOutputs => do
        let fullOutput ← Tuple.insertAt otherOutputs party told
        let probability ← box.queryProb input fullOutput
        pure (total + probability)) start) := by
  refine .foldTuples (fun otherOutputs fits total => ?_) start
  rw [insertAt_of_fits fits present]
  exact (box.queryProb_answers input _).bind fun _ _ => .ok _

/-- They are gone through to the end only if the row of the inputs is there. -/
theorem place_lt_of_foldTuples_insertAt {input : List Nat} (inside : told < box.outputRange)
    {start sum : α}
    (summed : Tuple.foldTuples box.outputRange (box.partyCount - 1)
      (fun total otherOutputs => do
        let fullOutput ← Tuple.insertAt otherOutputs party told
        let probability ← box.queryProb input fullOutput
        pure (total + probability)) start = .ok sum) :
    Tuple.place box.inputRange 0 input < box.matrix.length := by
  have zeros : List.replicate (box.partyCount - 1) 0
      ∈ Tuple.walk box.outputRange (box.partyCount - 1) := by
    refine Tuple.mem_walk.mpr ⟨List.length_replicate, fun digit member => ?_⟩
    rw [List.eq_of_mem_replicate member]
    exact Nat.zero_lt_of_lt inside
  obtain ⟨first, rest, walked⟩ := List.exists_cons_of_ne_nil (List.ne_nil_of_mem zeros)
  rw [Tuple.foldTuples_eq_foldlM, walked, List.foldlM_cons] at summed
  obtain ⟨_, stepped, -⟩ := (Attempt.bind_eq_ok_iff _ _ _).mp summed
  obtain ⟨_, -, looked⟩ := (Attempt.bind_eq_ok_iff _ _ _).mp stepped
  obtain ⟨_, found, -⟩ := (Attempt.bind_eq_ok_iff _ _ _).mp looked
  rw [queryProb, Attempt.mapRefusal_eq_ok_iff, Attempt.ofExcept_eq_ok_iff] at found
  exact place_lt_of_prob found

end

section

variable [Zero α] [Add α]

/-- Summing parties out answers. -/
theorem summedOut_answers (box : Box α) (input output positions : List Nat) :
    (box.summedOut input output positions).Answers := by
  refine .foldTuples (fun values _ total => ?_) 0
  exact (box.queryProb_answers input _).bind fun _ _ => .ok _

/-- A query on known outputs answers. -/
theorem normalisedProb_answers [Div α] [BEq α] (box : Box α) (input output pending : List Nat) :
    (box.normalisedProb input output pending).Answers := by
  cases pending with
  | nil => exact .refuse _
  | cons candidate rest =>
    refine (ensurePending_answers _ _ _).bind fun _ _ => ?_
    refine (box.summedOut_answers input output rest).bind fun numerator _ => ?_
    refine Attempt.Answers.bind ?_ fun denominator _ => .ok _
    refine .foldValues (fun value _ _ total => ?_) 0
    exact (box.summedOut_answers _ _ _).bind fun _ _ => .ok _

/-- The joint sum of a party's input and output answers.

The tuple at a place of the walk has a row at this place or later, so each step that goes
on passes a row, and the count is at most the number of rows. -/
theorem jointSum_answers (rows : box.matrix.length ≤ Word.greatestSigned)
    (present : party < box.partyCount) (askedInside : asked < box.inputRange)
    (toldInside : told < box.outputRange) : (box.jointSum party asked told).Answers := by
  rw [jointSum, sub_partyCount_of_lt present]
  refine .bind (.ok _) fun others same => ?_
  obtain rfl := Except.ok.inj same
  rw [Tuple.foldTuples_eq_foldlM]
  have inserted {place : Nat} {otherInputs : List Nat}
      (atPlace : (Tuple.walk box.inputRange (box.partyCount - 1))[place]? = some otherInputs) :
      (Tuple.insertAt otherInputs party asked : Attempt QueryError (List Nat))
          = .ok (otherInputs.insertIdx party asked)
        ∧ place ≤ Tuple.place box.inputRange 0 (otherInputs.insertIdx party asked) := by
    obtain ⟨within, rfl⟩ := List.getElem?_eq_some_iff.mp atPlace
    have fits := Tuple.mem_walk.mp (List.getElem_mem within)
    have room : party ≤ (Tuple.walk box.inputRange (box.partyCount - 1))[place].length := by
      rw [fits.1]
      omega
    have later := Tuple.place_le_place_insertIdx (Nat.zero_lt_of_lt askedInside) 0 asked room
    rw [Tuple.place_getElem_walk within] at later
    exact ⟨insertAt_of_fits fits present asked, later⟩
  refine .foldlM_count 0 0 (Nat.zero_le box.matrix.length) ?_ ?_
  · intro place otherInputs atPlace total within
    have word : 0 + place + 1 < Word.limit := by
      have : Word.greatestSigned + 1 < Word.limit := by decide
      omega
    refine .bind (.of_exists ⟨_, if_pos word⟩) fun assignments _ => ?_
    rw [(inserted atPlace).1]
    refine .bind (.ok _) fun fullInput _ => ?_
    exact (box.foldTuples_insertAt_answers fullInput told present total).bind fun _ _ => .ok _
  · intro place otherInputs atPlace total next stepped
    obtain ⟨assignments, added, afterCount⟩ := (Attempt.bind_eq_ok_iff _ _ _).mp stepped
    rw [(inserted atPlace).1] at afterCount
    obtain ⟨fullInput, same, afterInput⟩ := (Attempt.bind_eq_ok_iff _ _ _).mp afterCount
    obtain rfl := Except.ok.inj same
    obtain ⟨sum, summed, ended⟩ := (Attempt.bind_eq_ok_iff _ _ _).mp afterInput
    obtain rfl := Except.ok.inj ended
    have below := (inserted atPlace).2.trans_lt (place_lt_of_foldTuples_insertAt toldInside summed)
    refine ⟨by omega, ?_⟩
    unfold Word.add at added
    split at added
    · exact (Except.ok.inj added).symm
    · cases added

/-- A query on one party answers. -/
theorem reducedProb_answers [Div α] [Scalar α] (rows : box.matrix.length ≤ Word.greatestSigned)
    (party asked told : Nat) : (box.reducedProb party asked told).Answers := by
  rw [reducedProb]
  split
  · next present =>
    obtain ⟨asking, askedInside⟩ := box.ensureValue_answers .input asked
    obtain ⟨telling, toldInside⟩ := box.ensureValue_answers .output told
    refine asking.bind fun _ asks => telling.bind fun _ tells => ?_
    exact (jointSum_answers rows present (askedInside asks) (toldInside tells)).bind
      fun _ _ => .ok _
  · exact .refuse _

end

end Box

end Nonlocal
