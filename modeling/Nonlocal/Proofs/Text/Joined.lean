import Mathlib.Data.List.Basic

/-!
# Joined texts are taken apart in one way

A part that ends at a mark can be found again if the mark is not inside the part. Parts
that are joined by a separator can be found again if some character of the separator is in
none of them; spaces around that character do no harm, whatever the parts end with.
-/

namespace Nonlocal.Text

variable {β : Type}

/-- The first mark of a list cuts it in one way. -/
theorem cut_unique {mark : β} {first second rest other : List β} (clear : mark ∉ first)
    (clear' : mark ∉ second) (same : first ++ mark :: rest = second ++ mark :: other) :
    first = second ∧ rest = other := by
  induction first generalizing second with
  | nil =>
    cases second with
    | nil => exact ⟨rfl, (List.cons.inj same).2⟩
    | cons head tail => simp [(List.cons.inj same).1] at clear'
  | cons head tail ih =>
    cases second with
    | nil => simp [(List.cons.inj same).1] at clear
    | cons head' tail' =>
      obtain ⟨rfl, later⟩ := List.cons.inj same
      obtain ⟨rfl, ends⟩ := ih (List.not_mem_of_not_mem_cons clear)
        (List.not_mem_of_not_mem_cons clear') later
      exact ⟨rfl, ends⟩

/-- Lists of parts are equal if they are equal when joined, and the separator has a mark
that is in none of the parts. -/
theorem intercalate_injective {before after : List β} {mark : β} (fresh : mark ∉ before)
    {first second : List (List β)} (inhabited : first ≠ []) (inhabited' : second ≠ [])
    (clear : ∀ part ∈ first, mark ∉ part) (clear' : ∀ part ∈ second, mark ∉ part)
    (same : (before ++ mark :: after).intercalate first
      = (before ++ mark :: after).intercalate second) : first = second := by
  -- A part that is not the last one ends with the first mark that is found.
  have split (part next : List β) (rest : List (List β)) :
      (before ++ mark :: after).intercalate (part :: next :: rest)
        = (part ++ before) ++ mark :: (after
          ++ (before ++ mark :: after).intercalate (next :: rest)) := by
    simp
  have unmarked {part : List β} (absent : mark ∉ part) : mark ∉ part ++ before := by
    simp [absent, fresh]
  induction first generalizing second with
  | nil => exact (inhabited rfl).elim
  | cons part rest ih =>
    obtain ⟨part', rest', rfl⟩ := List.exists_cons_of_ne_nil inhabited'
    have absent := clear part List.mem_cons_self
    have absent' := clear' part' List.mem_cons_self
    cases rest with
    | nil =>
      cases rest' with
      | nil => simpa using same
      | cons next' rest' =>
        rw [split, List.intercalate_singleton] at same
        simp [same] at absent
    | cons next rest =>
      cases rest' with
      | nil =>
        rw [split, List.intercalate_singleton] at same
        simp [← same] at absent'
      | cons next' rest' =>
        rw [split, split] at same
        obtain ⟨parts, others⟩ := cut_unique (unmarked absent) (unmarked absent') same
        obtain rfl := List.append_cancel_right parts
        rw [ih (by simp) (by simp) (fun other member => clear other (by simp [member]))
          (fun other member => clear' other (by simp [member])) (List.append_cancel_left others)]

/-- Lists of texts are equal if they are equal when joined, and the separator has a
character that is in none of the texts. -/
theorem joined_injective {separator : String} (before : List Char) (mark : Char)
    (after : List Char) (made : separator.toList = before ++ mark :: after) (fresh : mark ∉ before)
    {first second : List String} (inhabited : first ≠ []) (inhabited' : second ≠ [])
    (clear : ∀ part ∈ first, mark ∉ part.toList) (clear' : ∀ part ∈ second, mark ∉ part.toList)
    (same : separator.intercalate first = separator.intercalate second) : first = second := by
  have texts := congrArg String.toList same
  rw [String.toList_intercalate, String.toList_intercalate, made] at texts
  refine List.map_injective_iff.mpr (fun _ _ => String.toList_inj.mp)
    (intercalate_injective fresh ?_ ?_ ?_ ?_ texts)
  · simpa using inhabited
  · simpa using inhabited'
  · simpa using clear
  · simpa using clear'

/-- A character of joined texts is one of the separator or of some part. -/
theorem mem_joined {separator : String} {parts : List String} {char : Char}
    (member : char ∈ (separator.intercalate parts).toList) :
    char ∈ separator.toList ∨ ∃ part ∈ parts, char ∈ part.toList := by
  rw [String.toList_intercalate] at member
  induction parts with
  | nil => simp at member
  | cons part rest ih =>
    cases rest with
    | nil => exact .inr ⟨part, by simp, by simpa using member⟩
    | cons next rest =>
      rw [List.map_cons, List.map_cons, List.intercalate_cons_cons, List.mem_append,
        List.mem_append] at member
      rcases member with (own | between) | later
      · exact .inr ⟨part, List.mem_cons_self, own⟩
      · exact .inl between
      · rcases ih later with between | ⟨other, present, inside⟩
        · exact .inl between
        · exact .inr ⟨other, List.mem_cons_of_mem _ present, inside⟩

/-- The characters of a part are in the joined text. -/
theorem mem_joined_of_mem {separator : String} {parts : List String} {part : String}
    (present : part ∈ parts) {char : Char} (member : char ∈ part.toList) :
    char ∈ (separator.intercalate parts).toList := by
  rw [String.toList_intercalate]
  induction parts with
  | nil => cases present
  | cons first rest ih =>
    cases rest with
    | nil =>
      obtain rfl := List.mem_singleton.mp present
      simpa using member
    | cons next rest =>
      rw [List.map_cons, List.map_cons, List.intercalate_cons_cons, List.mem_append]
      rcases List.mem_cons.mp present with rfl | later
      · exact .inl (List.mem_append_left _ member)
      · exact .inr (ih later)

/-- Lists whose elements are read back from their texts are read back as lists. -/
theorem forall₂_of_map_eq {γ : Type} {text : β → γ} {related : β → β → Prop}
    {first second : List β} (same : first.map text = second.map text)
    (back : ∀ element ∈ first, ∀ other ∈ second, text element = text other →
      related element other) : List.Forall₂ related first second := by
  induction first generalizing second with
  | nil =>
    obtain rfl : second = [] := by simpa using same.symm
    exact .nil
  | cons element rest ih =>
    cases second with
    | nil => simp at same
    | cons other others =>
      obtain ⟨head, tail⟩ := List.cons.inj same
      exact .cons (back element List.mem_cons_self other List.mem_cons_self head)
        (ih tail fun inner member outer member' =>
          back inner (List.mem_cons_of_mem _ member) outer (List.mem_cons_of_mem _ member'))

end Nonlocal.Text
