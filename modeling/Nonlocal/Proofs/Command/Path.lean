import Mathlib.Data.List.Basic
import Nonlocal.Command.Path

/-!
# The last component of a path

A path is followed component by component, but its extension is that of a file name that
is looked for from the end, past slashes and dots. Where the last component is no dot and
not empty, it is the file name, so a path with an extension has it from there.
-/

namespace Nonlocal

namespace Text

/-- A text without separators is one piece. -/
theorem split_of_not_mem {separator : Char} {text : List Char} (clear : separator ∉ text) :
    split separator text = [text] := by
  induction text with
  | nil => rfl
  | cons char text ih =>
    obtain ⟨different, later⟩ := not_or.mp (mt List.mem_cons.mpr clear)
    rw [split, if_neg (Ne.symm different), ih later]
    rfl

/-- What stands before the first separator is the first piece. -/
theorem split_of_first {separator : Char} {first : List Char} (clear : separator ∉ first)
    (rest : List Char) :
    split separator (first ++ separator :: rest) = first :: split separator rest := by
  induction first with
  | nil => simp [split]
  | cons char first ih =>
    obtain ⟨different, later⟩ := not_or.mp (mt List.mem_cons.mpr clear)
    rw [List.cons_append, split, if_neg (Ne.symm different), ih later]
    rfl

/-- What stands behind the last separator is the last piece. -/
theorem split_append {separator : Char} (before : List Char) {last : List Char}
    (clear : separator ∉ last) :
    split separator (before ++ separator :: last) = split separator before ++ [last] := by
  induction before with
  | nil => simp [split, split_of_not_mem clear]
  | cons char before ih =>
    rw [List.cons_append, split, split]
    split
    · rw [ih, List.cons_append]
    · have nonempty : split separator before ≠ [] :=
        List.ne_nil_of_length_pos (by rw [length_split]; omega)
      obtain ⟨first, rest, pieces⟩ := List.exists_cons_of_ne_nil nonempty
      rw [ih, pieces]
      rfl

end Text

namespace Command.Path

variable {path other : Path}

/-- The characters behind the last slash. -/
def final (path : Path) : List Char := (path.text.toList.reverse.takeWhile (· != '/')).reverse

/-- The last component has the characters behind the last slash. -/
theorem exists_components (path : Path) :
    ∃ directories, path.components = directories ++ [String.ofList path.final] := by
  have clear : '/' ∉ path.final := by
    intro member
    have kept := List.all_takeWhile (p := (· != '/')) (l := path.text.toList.reverse)
    exact absurd (List.all_eq_true.mp kept '/' (List.mem_reverse.mp member)) (by decide)
  have whole : path.text.toList
      = (path.text.toList.reverse.dropWhile (· != '/')).reverse ++ path.final := by
    rw [final, ← List.reverse_append, List.takeWhile_append_dropWhile, List.reverse_reverse]
  cases behind : path.text.toList.reverse.dropWhile (· != '/') with
  | nil =>
    rw [behind, List.reverse_nil, List.nil_append] at whole
    exact ⟨[], by rw [components, whole, Text.split_of_not_mem clear]; rfl⟩
  | cons char rest =>
    obtain rfl : char = '/' := by
      have stops := List.head_dropWhile_not (· != '/') (l := path.text.toList.reverse)
        (by simp [behind])
      simpa [behind] using stops
    rw [behind, List.reverse_cons, List.append_assoc, List.singleton_append] at whole
    exact ⟨(Text.split '/' rest.reverse).map String.ofList, by
      rw [components, whole, Text.split_append _ clear, List.map_append]
      rfl⟩

/-- The last component names a file: it is not empty and no dot. -/
def Plain (path : Path) : Prop := path.final ≠ [] ∧ path.final ≠ ['.']

/-- Nothing is passed over at the end of a path whose last component names a file. -/
theorem trimEnd_of_plain (plain : path.Plain) :
    trimEnd path.text.toList.reverse = path.text.toList.reverse := by
  obtain ⟨nonempty, noDot⟩ := plain
  unfold final at nonempty noDot
  generalize path.text.toList.reverse = backwards at nonempty noDot
  unfold trimEnd
  split
  · simp at nonempty
  · simp at noDot
  · rfl

/-- A path whose last component names a file has its extension from there. -/
theorem extension?_of_plain (plain : path.Plain) :
    path.extension? = if path.final = ['.', '.'] then none
      else (splitName path.final).2.map String.ofList := by
  have located : path.located? = if path.final = ['.', '.'] then none
      else some ⟨(path.text.toList.reverse.dropWhile (· != '/')).reverse, path.final⟩ := by
    have kept := trimEnd_of_plain plain
    obtain ⟨nonempty, noDot⟩ := plain
    simp only [located?, kept, final] at nonempty noDot ⊢
    simp only [nonempty, noDot, decide_false, Bool.false_or, decide_eq_true_eq]
    exact if_congr Iff.rfl rfl rfl
  rw [extension?, located]
  split <;> rfl

/-- Two dots are a component without an extension. -/
theorem not_dots_of_extension? {extension : String} (plain : path.Plain)
    (has : path.extension? = some extension) : path.final ≠ ['.', '.'] := by
  intro dots
  rw [extension?_of_plain plain, if_pos dots] at has
  cases has

/-- Paths with different extensions end in different components. -/
theorem final_ne_of_extension?_ne (plain : path.Plain) (plain' : other.Plain)
    (different : path.extension? ≠ other.extension?) : path.final ≠ other.final := by
  intro same
  exact different (by rw [extension?_of_plain plain, extension?_of_plain plain', same])

/-- A path that is not empty and does not end in a slash does not end in an empty
component. -/
theorem final_ne_nil (nonempty : path.text.toList ≠ []) (noSlash : path.endsInSlash = false) :
    path.final ≠ [] := by
  obtain ⟨last, rest, backwards⟩ :=
    List.exists_cons_of_ne_nil (List.reverse_ne_nil_iff.mpr nonempty)
  have different : (last != '/') = true := by
    have ends : path.text.toList.getLast? = some last := by
      rw [← List.head?_reverse, backwards]
      rfl
    simpa [endsInSlash, ends] using noSlash
  simp [final, backwards, different]

end Command.Path

end Nonlocal
