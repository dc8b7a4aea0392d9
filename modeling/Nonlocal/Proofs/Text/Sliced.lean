import Nonlocal.Diagnostic
import Nonlocal.Proofs.Source.Finding

/-!
# Slices of a text

A span of bytes can be sliced out of a text if both its ends lie between characters. What
is sliced out is then a unique text. That the bytes of the slice are those of the span is
not enough: a place inside a character has no text before it.
-/

namespace Nonlocal.Text

variable {source text other : List Char} {span : Span} {offset : Nat}

/-- A place between characters, or at one of the ends. -/
def Boundary (source : List Char) (offset : Nat) : Prop :=
  ∃ before after, before ++ after = source ∧ utf8Length before = offset

/-- The characters in the bytes of a span. -/
def Slices (source : List Char) (span : Span) (text : List Char) : Prop :=
  ∃ before after, before ++ text ++ after = source
    ∧ utf8Length before = span.start ∧ utf8Length (before ++ text) = span.stop

/-- The place before all characters. -/
theorem boundary_zero (source : List Char) : Boundary source 0 := ⟨[], source, rfl, rfl⟩

/-- No place between characters is beyond the end. -/
theorem Boundary.le (boundary : Boundary source offset) : offset ≤ utf8Length source := by
  obtain ⟨before, after, rfl, rfl⟩ := boundary
  rw [utf8Length_append]
  omega

/-- A text without bytes is empty. -/
theorem eq_nil_of_utf8Length_eq_zero (none : utf8Length text = 0) : text = [] := by
  cases text with
  | nil => rfl
  | cons char rest => exact absurd none (Nat.ne_of_gt (utf8Length_pos (List.cons_ne_nil char rest)))

/-- Of two beginnings the one with fewer bytes is a beginning of the other. -/
theorem exists_append_of_utf8Length_le {before after before' after' : List Char}
    (same : before ++ after = before' ++ after')
    (fewer : utf8Length before ≤ utf8Length before') : ∃ between, before ++ between = before' := by
  rcases List.append_eq_append_iff.mp same with ⟨between, whole, -⟩ | ⟨between, rfl, -⟩
  · exact ⟨between, whole.symm⟩
  · rw [utf8Length_append] at fewer
    obtain rfl : between = [] := eq_nil_of_utf8Length_eq_zero (by omega)
    exact ⟨[], by rw [List.append_nil, List.append_nil]⟩

/-- There is one place for each number of bytes. -/
theorem eq_of_utf8Length_eq {before after before' after' : List Char}
    (same : before ++ after = before' ++ after')
    (bytes : utf8Length before = utf8Length before') : before = before' := by
  obtain ⟨between, rfl⟩ := exists_append_of_utf8Length_le same (Nat.le_of_eq bytes)
  rw [utf8Length_append] at bytes
  obtain rfl : between = [] := eq_nil_of_utf8Length_eq_zero (by omega)
  rw [List.append_nil]

/-- The byte after a place is a place again exactly if one byte makes up the character there. -/
theorem boundary_succ_iff {before after : List Char} {char : Char}
    (whole : before ++ char :: after = source) :
    Boundary source (utf8Length before + 1) ↔ char.utf8Size = 1 := by
  constructor
  · rintro ⟨other, rest, same, bytes⟩
    obtain ⟨between, rfl⟩ := exists_append_of_utf8Length_le (whole.trans same.symm) (by omega)
    rw [← whole, List.append_assoc] at same
    have further := List.append_cancel_left same
    have positive := char.utf8Size_pos
    rw [utf8Length_append] at bytes
    cases between with
    | nil => simp at bytes
    | cons first more =>
      obtain ⟨rfl, -⟩ := List.cons.inj further
      rw [utf8Length_cons] at bytes
      omega
  · intro single
    exact ⟨before ++ [char], after, by rw [← whole]; simp, by simp [single]⟩

namespace Slices

variable (slices : Slices source span text)

include slices

/-- A slice begins between characters. -/
theorem boundary_start : Boundary source span.start := by
  obtain ⟨before, after, rfl, start, -⟩ := slices
  exact ⟨before, text ++ after, (List.append_assoc ..).symm, start⟩

/-- So does it end. -/
theorem boundary_stop : Boundary source span.stop := by
  obtain ⟨before, after, rfl, -, stop⟩ := slices
  exact ⟨before ++ text, after, rfl, stop⟩

/-- A slice does not end before it begins. -/
theorem start_le_stop : span.start ≤ span.stop := by
  obtain ⟨before, after, -, start, stop⟩ := slices
  rw [utf8Length_append] at stop
  omega

/-- A slice with characters has bytes. -/
theorem start_lt_stop (nonempty : text ≠ []) : span.start < span.stop := by
  obtain ⟨before, after, -, start, stop⟩ := slices
  have bytes := utf8Length_pos nonempty
  rw [utf8Length_append] at stop
  omega

/-- One text is sliced out. -/
theorem unique (others : Slices source span other) : text = other := by
  obtain ⟨before, after, whole, start, stop⟩ := slices
  obtain ⟨before', after', whole', start', stop'⟩ := others
  have inside : before ++ text = before' ++ other :=
    eq_of_utf8Length_eq (whole.trans whole'.symm) (stop.trans stop'.symm)
  obtain rfl := eq_of_utf8Length_eq inside (start.trans start'.symm)
  exact List.append_cancel_left inside

end Slices

end Nonlocal.Text
