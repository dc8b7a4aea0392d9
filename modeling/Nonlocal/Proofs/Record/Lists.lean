import Nonlocal.Proofs.Record.Cursor
import Nonlocal.Record.Reader
import Nonlocal.Record.Writer

/-!
# Lists are read back

A list is read back element by element if every element is: a reader that is given a
written element leaves what was written after it, whether that is a comma or the closing
bracket. Nothing else is asked of the elements but that they start with a character that
is neither a blank nor the closing bracket.
-/

namespace Nonlocal.Record

/-- A text that an element of a list may start with. -/
def OpensElement (text : List Char) : Prop :=
  ∃ first later, text = first :: later ∧ isBlank first = false ∧ first ≠ ']'

/-- What follows an element does not matter for how it starts. -/
theorem OpensElement.append {text : List Char} (opens : OpensElement text) (rest : List Char) :
    OpensElement (text ++ rest) := by
  obtain ⟨first, later, rfl, shown, other⟩ := opens
  exact ⟨first, later ++ rest, rfl, shown, other⟩

/-- Texts joined by a separator are the first one and then each other one after a
separator. -/
theorem intercalate_cons {α : Type} (separator first : List α) (later : List (List α)) :
    separator.intercalate (first :: later) = first ++ later.flatMap (separator ++ ·) := by
  induction later generalizing first with
  | nil => simp
  | cons second later ih => rw [List.intercalate_cons_cons, ih, List.flatMap_cons]; simp

section Elements

variable {α β : Type} {element : Reader β} {write : α → List Char} {result : α → β}
  {whole rest : List Char}

/-- The first element of a list starts at once. -/
theorem nextElement?_first {text : List Char} (opens : OpensElement text) :
    nextElement? true text = .ok (some (Tail.whole text)) := by
  obtain ⟨first, later, rfl, shown, other⟩ := opens
  simp only [nextElement?, skipBlanks_cons shown, Tail.whole, other, if_false, if_true]

/-- Every other element starts after a comma. -/
theorem nextElement?_comma {text : List Char} (opens : OpensElement text) :
    ∃ isTail, nextElement? false (',' :: text) = .ok (some ⟨text, isTail⟩) := by
  obtain ⟨first, later, rfl, shown, other⟩ := opens
  refine ⟨by simp, ?_⟩
  simp only [nextElement?, skipBlanks_cons (show isBlank ',' = false by decide),
    skipBlanks_cons shown, Tail.whole, other]
  rfl

/-- A list ends at its closing bracket. -/
theorem readElements_end (isFirst : Bool) (read : List β)
    (isPart : (']' :: rest).length ≤ whole.length) :
    Gives (readElements element whole isFirst read (']' :: rest) isPart) read rest := by
  have ended : nextElement? isFirst (']' :: rest) = .ok none := by
    simp only [nextElement?, skipBlanks_cons (show isBlank ']' = false by decide), Tail.whole,
      if_true]
  have closed : readListEnd (']' :: rest) = .ok ⟨rest, Nat.lt_succ_self _⟩ := by
    simp only [readListEnd, next?_cons (show isBlank ']' = false by decide), if_true]
  refine ⟨isPart, ?_⟩
  rw [readElements]
  simp only [ended, closed]

/-- An element that is read is put before those that have been read. -/
theorem readElements_step {isFirst : Bool} {text start later : List Char} {value : β}
    {isTail : start.length ≤ text.length} (read : List β)
    (next : nextElement? isFirst text = .ok (some ⟨start, isTail⟩))
    (gives : Gives (element start) value later) (isPart : text.length ≤ whole.length) :
    ∃ isPart', readElements element whole isFirst read text isPart
      = readElements element whole false (value :: read) later isPart' := by
  obtain ⟨shorter, found⟩ := gives
  refine ⟨by omega, ?_⟩
  rw [readElements]
  simp only [next, found]

/-- The rest of a list after an element: every later element after its comma, and the
closing bracket. -/
def listTail (write : α → List Char) (values : List α) (rest : List Char) : List Char :=
  values.flatMap (fun value => ',' :: write value) ++ ']' :: rest

/-- The rest of a list may follow an element. -/
theorem delimited_listTail (write : α → List Char) (values : List α) (rest : List Char) :
    Delimited (listTail write values rest) := by
  cases values with
  | nil => exact delimited_bracket rest
  | cons value values => exact delimited_comma _

/-- The rest of a list with one more element. -/
theorem listTail_cons (write : α → List Char) (value : α) (values : List α) (rest : List Char) :
    listTail write (value :: values) rest
      = ',' :: (write value ++ listTail write values rest) := by
  simp [listTail]

/-- The text of a list is its first element and the rest. -/
theorem writeList_cons (write : α → List Char) (value : α) (values : List α) (rest : List Char) :
    writeList ((value :: values).map write) ++ rest
      = '[' :: (write value ++ listTail write values rest) := by
  simp [writeList, listTail, intercalate_cons, List.flatMap_map]

/-- The elements after the first one are read back. -/
theorem readElements_listTail {values : List α}
    (opens : ∀ value ∈ values, OpensElement (write value))
    (reads : ∀ value ∈ values, ∀ rest, Delimited rest →
      Gives (element (write value ++ rest)) (result value) rest)
    (read : List β) (isPart : (listTail write values rest).length ≤ whole.length) :
    Gives (readElements element whole false read (listTail write values rest) isPart)
      ((values.map result).reverse ++ read) rest := by
  induction values generalizing read with
  | nil => exact readElements_end false read isPart
  | cons value values ih =>
    obtain ⟨opensFirst, opensLater⟩ := List.forall_mem_cons.mp opens
    obtain ⟨readsFirst, readsLater⟩ := List.forall_mem_cons.mp reads
    simp only [listTail_cons] at isPart ⊢
    obtain ⟨isTail, next⟩ := nextElement?_comma (opensFirst.append (listTail write values rest))
    obtain ⟨isPart', step⟩ := readElements_step read next
      (readsFirst _ (delimited_listTail write values rest)) isPart
    rw [step, List.map_cons, List.reverse_cons, List.append_assoc]
    exact ih opensLater readsLater (result value :: read) isPart'

/-- A list is read back if its elements are. -/
theorem readList_writeList {values : List α}
    (opens : ∀ value ∈ values, OpensElement (write value))
    (reads : ∀ value ∈ values, ∀ rest, Delimited rest →
      Gives (element (write value ++ rest)) (result value) rest) (rest : List Char) :
    Gives (readList element (writeList (values.map write) ++ rest)) (values.map result) rest := by
  have bracket : isBlank '[' = false := by decide
  cases values with
  | nil =>
    have text : writeList (([] : List α).map write) ++ rest = '[' :: ']' :: rest := by
      simp [writeList]
    obtain ⟨shorter, read⟩ := @readElements_end _ element _ rest true [] (length_le_self _)
    rw [text]
    refine ⟨Nat.lt_succ_of_lt shorter, ?_⟩
    simp only [readList, next?_cons bracket, if_true, read]
    rfl
  | cons value values =>
    obtain ⟨opensFirst, opensLater⟩ := List.forall_mem_cons.mp opens
    obtain ⟨readsFirst, readsLater⟩ := List.forall_mem_cons.mp reads
    obtain ⟨isPart, step⟩ := @readElements_step _ element _ true _ _ _ _ _ []
      (nextElement?_first (opensFirst.append (listTail write values rest)))
      (readsFirst _ (delimited_listTail write values rest)) (length_le_self _)
    obtain ⟨shorter, read⟩ := readElements_listTail opensLater readsLater [result value] isPart
    rw [← step] at read
    rw [writeList_cons]
    refine ⟨Nat.lt_succ_of_lt shorter, ?_⟩
    simp only [readList, next?_cons bracket, if_true, read, List.reverse_append,
      List.reverse_reverse]
    rfl

end Elements

end Nonlocal.Record
