import Mathlib.Data.List.Nodup
import Nonlocal.Model.Basic

/-!
# Elements in the order of their keys

Keys are compared by their ranks, lexicographically. Elements whose ranks ascend strictly
are left as they are by the sort, so for a list that is made in that order the sort is a
check and not a rearrangement. A nested enumeration makes such a list: each of its loops
contributes one rank, which all elements of a pass share, and later passes have greater
ones.
-/

namespace Nonlocal

namespace Key

/-- Ranks that come before others are not after them. -/
theorem ranksLe_of_lt {first second : List Nat} (before : first < second) :
    ranksLe first second = true := by
  induction first generalizing second with
  | nil => simp [ranksLe]
  | cons rank rest inductionHypothesis =>
    cases second with
    | nil => simp at before
    | cons other later =>
      rcases List.cons_lt_cons_iff.mp before with smaller | ⟨rfl, restBefore⟩
      · simp [ranksLe, smaller]
      · simp [ranksLe, inductionHypothesis restBefore]

/-- Sorting leaves elements alone that are in the strict order of their keys. -/
theorem sort_of_ascending {β : Type} (key : β → Key) {elements : List β}
    (ascending : elements.Pairwise fun first second => (key first).ranks < (key second).ranks) :
    sort key elements = elements := by
  induction ascending with
  | nil => rfl
  | @cons first rest before _ inductionHypothesis =>
    have unfolded : sort key (first :: rest) = insert key first (sort key rest) := rfl
    rw [unfolded, inductionHypothesis]
    cases rest with
    | nil => rfl
    | cons second later =>
      have inPlace : (key first).le (key second) = true :=
        ranksLe_of_lt (before second List.mem_cons_self)
      rw [insert, if_pos inPlace]

end Key

section

variable {β γ : Type} {ranks : γ → List Nat}

/-- Elements that have their first ranks in common ascend if the remaining ranks do. -/
theorem ascending_of_drop {elements : List γ} (shared : List Nat)
    (same : ∀ element ∈ elements, (ranks element).take shared.length = shared)
    (ascending : elements.Pairwise fun first second =>
      (ranks first).drop shared.length < (ranks second).drop shared.length) :
    elements.Pairwise fun first second => ranks first < ranks second := by
  refine (List.Pairwise.and_mem.mp ascending).imp ?_
  rintro first second ⟨firstMember, secondMember, before⟩
  rw [← List.take_append_drop shared.length (ranks first),
    ← List.take_append_drop shared.length (ranks second), same first firstMember,
    same second secondMember]
  exact List.append_left_lt before

/-- Elements made from sources in the order of a number ascend in that number first, if what
is made from one source ascends in the remaining ranks. -/
theorem ascending_flatMap {sources : List β} {made : β → List γ} (rank : β → Nat) (first : γ → Nat)
    (ordered : sources.Pairwise fun origin other => rank origin < rank other)
    (named : ∀ origin ∈ sources, ∀ element ∈ made origin, first element = rank origin)
    (each : ∀ origin ∈ sources,
      (made origin).Pairwise fun element other => ranks element < ranks other) :
    (sources.flatMap made).Pairwise fun element other =>
      first element :: ranks element < first other :: ranks other := by
  rw [List.pairwise_flatMap]
  constructor
  · intro origin listed
    refine (List.Pairwise.and_mem.mp (each origin listed)).imp ?_
    rintro element other ⟨elementMade, otherMade, before⟩
    rw [named origin listed element elementMade, named origin listed other otherMade]
    exact List.cons_lt_cons_iff.mpr (Or.inr ⟨rfl, before⟩)
  · refine (List.Pairwise.and_mem.mp ordered).imp ?_
    rintro origin other ⟨originListed, otherListed, smaller⟩ left leftMade right rightMade
    rw [named origin originListed left leftMade, named other otherListed right rightMade]
    exact List.cons_lt_cons_iff.mpr (Or.inl smaller)

/-- Elements made one by one from sources in the order of a number ascend in that number. -/
theorem ascending_map {sources : List β} {made : β → γ} (rank : β → Nat) (first : γ → Nat)
    (ordered : sources.Pairwise fun origin other => rank origin < rank other)
    (named : ∀ origin, first (made origin) = rank origin) :
    (sources.map made).Pairwise fun element other =>
      first element :: ranks element < first other :: ranks other := by
  rw [List.pairwise_map]
  refine ordered.imp ?_
  intro origin other smaller
  rw [named, named]
  exact List.cons_lt_cons_iff.mpr (Or.inl smaller)

/-- Numbered elements ascend in their numbers. -/
theorem ascending_zipIdx (elements : List β) :
    elements.zipIdx.Pairwise fun first second => first.2 < second.2 := by
  have numbers : (elements.zipIdx.map Prod.snd).Pairwise (· < ·) := by
    rw [List.zipIdx_map_snd]
    exact List.pairwise_lt_range'
  exact List.pairwise_map.mp numbers

end

end Nonlocal
