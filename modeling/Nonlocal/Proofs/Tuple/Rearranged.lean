import Nonlocal.Proofs.Tuple.Sum

/-!
# Lists in another order

A permutation of the places of a list moves each element to the place that its own
place is sent to. Moving back with the inverse gives the list again, so the tuples of a
length are only exchanged for one another, and sums over them stay the same.
-/

namespace Nonlocal.Tuple

variable {β : Type} {order : Equiv.Perm Nat} {length place : Nat}

/-- The permutation exchanges the first places among themselves. -/
def Keeps (order : Equiv.Perm Nat) (count : Nat) : Prop :=
  ∀ place, order place < count ↔ place < count

/-- So does its inverse. -/
theorem Keeps.symm (keeps : Keeps order length) : Keeps order.symm length := by
  intro place
  rw [← keeps (order.symm place), Equiv.apply_symm_apply]

variable [Inhabited β] {elements : List β}

/-- The list in which each element stands where its place is sent to. -/
def moved (order : Equiv.Perm Nat) (elements : List β) : List β :=
  (List.range elements.length).map fun place => elements.getD (order.symm place) default

/-- No place is gained or lost. -/
@[simp] theorem length_moved (order : Equiv.Perm Nat) (elements : List β) :
    (moved order elements).length = elements.length := by
  rw [moved, List.length_map, List.length_range]

/-- What stands at a place is found where that place is sent to. -/
theorem getElem?_moved (keeps : Keeps order elements.length) (place : Nat) :
    (moved order elements)[order place]? = elements[place]? := by
  rw [moved, List.getElem?_map]
  by_cases inside : place < elements.length
  · rw [List.getElem?_range ((keeps place).mpr inside)]
    simp [inside]
  · have beyond : ¬ order place < elements.length := fun other => inside ((keeps place).mp other)
    rw [List.getElem?_eq_none (by simpa using beyond),
      List.getElem?_eq_none (by simpa using inside)]
    rfl

/-- A list with the elements at the places that they are sent to is the moved one. -/
theorem eq_moved {other : List β} (keeps : Keeps order elements.length)
    (found : ∀ place, other[order place]? = elements[place]?) : other = moved order elements := by
  apply List.ext_getElem?
  intro place
  have atPlace := (found (order.symm place)).trans (getElem?_moved keeps (order.symm place)).symm
  rwa [Equiv.apply_symm_apply] at atPlace

/-- Moving back undoes the move. -/
theorem moved_symm_moved (keeps : Keeps order elements.length) :
    moved order.symm (moved order elements) = elements := by
  have back : Keeps order.symm (moved order elements).length := by
    rw [length_moved]
    exact keeps.symm
  refine (eq_moved back fun place => ?_).symm
  rw [← getElem?_moved keeps, Equiv.apply_symm_apply]

/-- Moving undoes the move back. -/
theorem moved_moved_symm (keeps : Keeps order elements.length) :
    moved order (moved order.symm elements) = elements :=
  moved_symm_moved keeps.symm

/-- Replacing an element and moving may be exchanged. -/
theorem moved_set (keeps : Keeps order elements.length) (place : Nat) (element : β) :
    moved order (elements.set place element)
      = (moved order elements).set (order place) element := by
  symm
  apply eq_moved (by rwa [List.length_set])
  intro other
  rw [List.getElem?_set, List.getElem?_set, length_moved, getElem?_moved keeps]
  by_cases same : place = other
  · simp only [same, if_true, keeps other]
  · rw [if_neg same, if_neg fun sent => same (order.injective sent)]

/-- Moving changes the order alone. -/
theorem perm_moved (keeps : Keeps order elements.length) :
    (moved order elements).Perm elements := by
  have places : ((List.range elements.length).map order.symm).Perm
      (List.range elements.length) := by
    refine (List.perm_ext_iff_of_nodup
      (List.nodup_range.map order.symm.injective) List.nodup_range).mpr fun place => ?_
    rw [List.mem_map, List.mem_range]
    constructor
    · rintro ⟨other, member, rfl⟩
      exact (keeps.symm other).mpr (List.mem_range.mp member)
    · intro inside
      exact ⟨order place, List.mem_range.mpr ((keeps place).mpr inside),
        order.symm_apply_apply place⟩
  have inPlace : (List.range elements.length).map (fun place => elements.getD place default)
      = elements := by
    apply List.ext_getElem?
    intro place
    by_cases inside : place < elements.length <;> simp [inside]
  have moves := places.map fun place => elements.getD place default
  rwa [List.map_map, inPlace] at moves

/-- A tuple that fits still does when it is moved. -/
theorem Fits.moved {radix : Nat} {digits : List Nat} (fits : Fits radix length digits)
    (keeps : Keeps order length) : Fits radix length (moved order digits) := by
  have inside : Keeps order digits.length := by rwa [fits.1]
  refine ⟨by rw [length_moved, fits.1], fun digit member => ?_⟩
  exact fits.2 digit ((perm_moved inside).mem_iff.mp member)

/-- Every tuple that fits is moved from one that does. -/
theorem Fits.exists_moved {radix : Nat} {digits : List Nat} (fits : Fits radix length digits)
    (keeps : Keeps order length) :
    ∃ origin, Fits radix length origin ∧ Tuple.moved order origin = digits :=
  ⟨Tuple.moved order.symm digits, fits.moved keeps.symm, moved_moved_symm (by rwa [fits.1])⟩

/-- A sum over all tuples may be formed over their moved ones. -/
theorem sum_moved {radix : Nat} {σ : Type} [AddCommMonoid σ] (keeps : Keeps order length)
    (f : List Nat → σ) :
    ∑ digits ∈ tuples radix length, f (moved order digits)
      = ∑ digits ∈ tuples radix length, f digits := by
  refine Finset.sum_nbij' (moved order) (moved order.symm) ?_ ?_ ?_ ?_ ?_
  · exact fun digits member => mem_tuples.mpr ((mem_tuples.mp member).moved keeps)
  · exact fun digits member => mem_tuples.mpr ((mem_tuples.mp member).moved keeps.symm)
  · intro digits member
    exact moved_symm_moved (by rwa [(mem_tuples.mp member).1])
  · intro digits member
    exact moved_moved_symm (by rwa [(mem_tuples.mp member).1])
  · exact fun digits member => rfl

end Nonlocal.Tuple
