import Nonlocal.Tuple.Codec

/-!
# The walk over all tuples

The walk starts with the all-zero tuple. Each step raises the last digit that
has room and puts every later digit back to 0; it ends at the tuple in which no
digit has room. Tuples are met in the order of their indices. In radix 0 there
is no tuple but the empty one. `first?` and `next?` take single steps, and
`later?` and `stations` follow them for a while.

The number of tuples still ahead (`remaining`) falls with every step. `walk`
lists the tuples; `foldTuples` and `mapTuples` visit them one by one and stop at
the first failure, so they may be used where the whole list would be too long to
form.
-/

namespace Nonlocal.Tuple

/-- The tuple that follows, if any digit has room. -/
def next? (radix : Nat) : List Nat → Option (List Nat)
  | [] => none
  | digit :: rest =>
    match next? radix rest with
    | some rest => some (digit :: rest)
    | none =>
      if digit + 1 < radix then some ((digit + 1) :: rest.map fun _ => 0) else none

/-- The number of tuples that are still ahead. -/
def remaining (radix : Nat) : List Nat → Nat
  | [] => 0
  | digit :: rest => (radix - 1 - digit) * total radix rest.length + remaining radix rest

/-- A step keeps the number of digits. -/
theorem next?_length {radix : Nat} {digits following : List Nat}
    (advanced : next? radix digits = some following) : following.length = digits.length := by
  induction digits generalizing following with
  | nil => simp [next?] at advanced
  | cons digit rest inductionHypothesis =>
    simp only [next?] at advanced
    split at advanced
    · next tail stepped =>
      cases advanced
      simp [inductionHypothesis stepped]
    · split at advanced
      · cases advanced
        simp
      · cases advanced

/-- From the all-zero tuple fewer tuples are ahead than there are in all. -/
theorem remaining_zeros_lt {radix : Nat} (positive : 0 < radix) (digits : List Nat) :
    remaining radix (digits.map fun _ => 0) < total radix digits.length := by
  induction digits with
  | nil => simp [remaining, total_zero]
  | cons digit rest inductionHypothesis =>
    simp only [List.map_cons, remaining, List.length_map, List.length_cons, total_succ,
      Nat.sub_zero]
    have split : total radix rest.length * radix
        = (radix - 1) * total radix rest.length + total radix rest.length := by
      have whole : radix = (radix - 1) + 1 := by omega
      calc total radix rest.length * radix = radix * total radix rest.length := Nat.mul_comm ..
        _ = ((radix - 1) + 1) * total radix rest.length := by rw [← whole]
        _ = _ := by rw [Nat.add_mul, Nat.one_mul]
    omega

/-- Every step leaves fewer tuples ahead. -/
theorem remaining_next?_lt {radix : Nat} {digits following : List Nat}
    (advanced : next? radix digits = some following) :
    remaining radix following < remaining radix digits := by
  induction digits generalizing following with
  | nil => simp [next?] at advanced
  | cons digit rest inductionHypothesis =>
    simp only [next?] at advanced
    split at advanced
    · next tail stepped =>
      cases advanced
      have fewer := inductionHypothesis stepped
      have same := next?_length stepped
      simp only [remaining, same]
      omega
    · split at advanced
      · next room =>
        cases advanced
        have below := remaining_zeros_lt (show 0 < radix by omega) rest
        simp only [remaining, List.length_map]
        have split : (radix - 1 - digit) * total radix rest.length
            = (radix - 1 - (digit + 1)) * total radix rest.length
              + total radix rest.length := by
          have whole : radix - 1 - digit = (radix - 1 - (digit + 1)) + 1 := by omega
          rw [whole, Nat.add_mul, Nat.one_mul]
        omega
      · cases advanced

/-- The first tuple of the walk. -/
def first? (radix length : Nat) : Option (List Nat) :=
  if radix = 0 ∧ 0 < length then none else some (List.replicate length 0)

/-- Where a walk stands some steps later; it stands nowhere after its end. -/
def later? (radix : Nat) : (steps : Nat) → Option (List Nat) → Option (List Nat)
  | _, none => none
  | 0, some digits => some digits
  | steps + 1, some digits => later? radix steps (next? radix digits)

/-- Where a walk stands at each of the next steps, the present one first. -/
def stations (radix : Nat) : (count : Nat) → Option (List Nat) → List (Option (List Nat))
  | 0, _ => []
  | count + 1, current => current :: stations radix count (current.bind (next? radix))

/-- The tuples from a given one to the end of the walk. -/
def walkFrom (radix : Nat) (digits : List Nat) : List (List Nat) :=
  match _advanced : next? radix digits with
  | none => [digits]
  | some following => digits :: walkFrom radix following
termination_by remaining radix digits
decreasing_by exact remaining_next?_lt _advanced

/-- All tuples of a length, in the order of their indices. -/
def walk (radix length : Nat) : List (List Nat) :=
  match first? radix length with
  | none => []
  | some digits => walkFrom radix digits

variable {ε σ : Type}

/-- Runs `step` on the tuples from a given one to the end of the walk. -/
def foldTuplesFrom (radix : Nat) (step : σ → List Nat → Except ε σ) (digits : List Nat)
    (state : σ) : Except ε σ :=
  match step state digits with
  | .error stop => .error stop
  | .ok after =>
    match _advanced : next? radix digits with
    | none => .ok after
    | some following => foldTuplesFrom radix step following after
termination_by remaining radix digits
decreasing_by exact remaining_next?_lt _advanced

/-- Runs `step` on all tuples of a length and stops at the first failure. -/
def foldTuples (radix length : Nat) (step : σ → List Nat → Except ε σ) (state : σ) :
    Except ε σ :=
  match first? radix length with
  | none => .ok state
  | some digits => foldTuplesFrom radix step digits state

/-- The results of `step` on all tuples of a length, in the order of the walk, unless one
of them fails. -/
def mapTuples {β : Type} (radix length : Nat) (step : List Nat → Except ε β) :
    Except ε (List β) :=
  (foldTuples radix length (fun results digits => (step digits).map (· :: results)) []).map
    List.reverse

/-- Visiting the tuples one by one is folding over their list. -/
theorem foldTuplesFrom_eq_foldlM (radix : Nat) (step : σ → List Nat → Except ε σ)
    (digits : List Nat) (state : σ) :
    foldTuplesFrom radix step digits state = (walkFrom radix digits).foldlM step state := by
  fun_induction foldTuplesFrom radix step digits state with
  | case1 digits state stop stopped =>
    rw [walkFrom]
    split <;> simp [stopped, bind, Except.bind]
  | case2 digits state after stepped ended =>
    rw [walkFrom]
    split <;> simp_all [bind, Except.bind, pure, Except.pure]
  | case3 digits state after stepped following advanced inductionHypothesis =>
    rw [walkFrom]
    split
    · simp_all
    · next other same =>
      cases same.symm.trans advanced
      simp [stepped, bind, Except.bind, inductionHypothesis]

/-- Visiting all tuples one by one is folding over the walk. -/
theorem foldTuples_eq_foldlM (radix length : Nat) (step : σ → List Nat → Except ε σ)
    (state : σ) :
    foldTuples radix length step state = (walk radix length).foldlM step state := by
  unfold foldTuples walk
  split
  · simp [pure, Except.pure]
  · exact foldTuplesFrom_eq_foldlM ..

end Nonlocal.Tuple
