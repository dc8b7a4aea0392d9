import Nonlocal.Proofs.Source.Rules

/-!
# Whole sources

The grammar finds a document in a source exactly where the source lays its tokens out. After
the headers comes the first row, or the end, neither of which begins as a header does. No
token begins as a gap does, but for the slash of a fraction, so that the places where the
tokens stand are those where the text before them has settled.
-/

namespace Nonlocal.Source.Language

open Grammar (settle)

variable {source text rest : List Char} {found : List Part}

/-- The part that a document is. -/
def Document.part (document : Document) : Part :=
  .mk .program [] (document.headers.map Header.part
    ++ (document.rows.map rowPart ++ [.mk .endOfInput [] []]))

/-- Headers, rows and the end, without the gap before them. -/
def documentPattern : Pattern :=
  Grammar.spaced [Grammar.manySpaced Grammar.declaration, Grammar.manySpaced Grammar.row,
    .named .endOfInput .finish]

/-- The end is read where nothing is left. -/
theorem reads_end : Reads (.named .endOfInput .finish) (fun _ : Unit => [])
    (fun _ => [.mk .endOfInput [] []]) (· = none) := by
  have reads : Reads .finish (fun _ : Unit => []) (fun _ => []) (· = none) := by
    constructor
    · intro text after found isFound
      obtain ⟨rfl, ended, rfl⟩ := Pattern.find_finish_eq_some_iff.mp isFound
      exact ⟨(), rfl, ended.trans Grammar.settle_nil.symm⟩
    · intro _ text rest reaches ended
      have alike := reaches_nil.mp reaches
      rw [← alike, List.head?_eq_none_iff] at ended
      refine ⟨[], Pattern.find_finish_eq_some_iff.mpr ⟨rfl, ended, rfl⟩, ?_⟩
      rw [Grammar.settle_nil, ← alike, ended]
  exact reads.named rfl

/-- Headers and rows are read, if nothing is left after them. -/
theorem reads_document : Reads documentPattern
    (fun document : Document => document.tokens)
    (fun document => document.headers.map Header.part
      ++ (document.rows.map rowPart ++ [.mk .endOfInput [] []])) (· = none) := by
  have rows := reads_rows.both reads_end (by
    intro _ text rest reaches ended
    have alike := reaches_nil.mp reaches
    simp [alike, ended])
  have follows : ∀ (pair : List (List Cell) × Unit) (text rest : List Char),
      Reaches (pair.1.flatMap rowTokens ++ []) text rest → (settle rest).head? = none →
      True ∧ ∀ char ∈ (settle text).head?, ¬ (char = 'i' ∨ char = 'o' ∨ char = 'r') := by
    rintro ⟨_ | ⟨cells, others⟩, _⟩ text rest reaches ended
    · have alike := reaches_nil.mp reaches
      simp [alike, ended]
    · obtain ⟨char, token, more, same, rfl⟩ := opens_row cells
      rw [List.append_nil, List.flatMap_cons, same] at reaches
      rw [reaches.head?]
      simp
  exact (reads_headers.both rows follows).image (fun (headers, rows, _) => ⟨headers, rows⟩)
    (fun document => ⟨(document.headers, document.rows, ()), rfl⟩)
    (fun pair => by simp [Document.tokens]) (fun _ => rfl)

/-- Nothing is left after a document. -/
theorem eq_nil_of_find_document {after : List Char}
    (isFound : documentPattern.find text = some (found, after)) : after = [] := by
  obtain ⟨_, _, _, -, further, -⟩ := Pattern.find_both_eq_some_iff.mp isFound
  obtain ⟨_, _, _, -, further, -⟩ := Pattern.find_both_eq_some_iff.mp further
  obtain ⟨_, _, _, -, further, -⟩ := Pattern.find_both_eq_some_iff.mp further
  obtain ⟨_, _, _, -, further, -⟩ := Pattern.find_both_eq_some_iff.mp further
  obtain ⟨_, ended, -⟩ := Pattern.find_named_eq_some_iff.mp further
  exact (Pattern.find_finish_eq_some_iff.mp ended).2.2

/-- The gap before a document is passed over. -/
theorem find_program_eq_some_iff {after : List Char} :
    Grammar.program.find source = some (found, after)
      ↔ ∃ children, documentPattern.find (settle source) = some (children, after)
        ∧ found = [.mk .program [] children] := by
  have body (children : List Part) :
      (Pattern.both (.exactly []) (.both Grammar.gap documentPattern)).find source
          = some (children, after)
        ↔ documentPattern.find (settle source) = some (children, after) := by
    rw [Pattern.find_both_eq_some_iff, ← find_both_gap]
    simp only [Pattern.find_exactly_eq_some_iff]
    constructor
    · rintro ⟨_, _, _, ⟨rfl, rfl⟩, isFound, rfl⟩
      exact isFound
    · exact fun isFound => ⟨[], source, children, ⟨rfl, rfl⟩, isFound, rfl⟩
  simp only [← body]
  exact Pattern.find_named_eq_some_iff

/-- The grammar finds the documents whose tokens lead from one settled place to the next, up to
the end of the source. -/
theorem exists_find_program_iff :
    (∃ after, Grammar.program.find source = some (found, after))
      ↔ ∃ document : Document, found = [document.part] ∧ Reaches document.tokens source [] := by
  simp only [find_program_eq_some_iff]
  constructor
  · rintro ⟨after, children, isFound, rfl⟩
    obtain rfl := eq_nil_of_find_document isFound
    obtain ⟨document, rfl, reaches⟩ := reads_document.sound isFound
    exact ⟨document, rfl, reaches⟩
  · rintro ⟨document, rfl, reaches⟩
    obtain ⟨after, isFound, -⟩ :=
      reads_document.complete reaches (by rw [Grammar.settle_nil]; rfl)
    exact ⟨after, _, isFound, rfl⟩

section

variable {char : Char} {more : List Char}

/-- Tokens are solid that begin with no star and as no gap may begin. -/
theorem solid_cons (visible : char ∉ '*' :: Grammar.gapOpeners) : Solid (char :: more) := by
  rw [List.mem_cons, not_or, Grammar.mem_gapOpeners, not_or, Bool.not_eq_true] at visible
  exact ⟨char, more, rfl, visible.2.1, visible.1, fun slash => (visible.2.2 slash).elim⟩

/-- So are tokens that begin with a character of a class that has none of these. -/
theorem solid_of_test {test : Char → Bool} (passes : test char = true)
    (closed : ('*' :: Grammar.gapOpeners).all (fun other => !test other) = true) :
    Solid (char :: more) :=
  solid_cons fun member => by simpa [passes] using List.all_eq_true.mp closed char member

end

/-- Digits are solid. -/
theorem Digits.solid (digits : Digits) : Solid digits.chars := by
  obtain ⟨char, more, same, isDigit⟩ := digits.exists_head
  rw [same]
  exact solid_of_test isDigit rfl

/-- Names are solid. -/
theorem Name.solid (name : Name) : Solid name.text.toList := by
  obtain ⟨char, taken, same, isStart, -⟩ := name.exists_chars
  rw [same]
  exact solid_of_test isStart rfl

/-- Numerals are solid. -/
theorem Numeral.solid (numeral : Numeral) : Solid numeral.chars := by
  obtain ⟨char, more, same, isDigit | rfl | rfl⟩ := numeral.exists_head
  · rw [same]
    exact solid_of_test isDigit rfl
  · rw [same]
    exact solid_cons (by decide)
  · rw [same]
    exact solid_cons (by decide)

/-- The tokens of a cell are solid. -/
theorem Cell.solid (cell : Cell) : ∀ token ∈ cell.tokens, Solid token := by
  cases cell with
  | decimal numeral => exact List.forall_mem_singleton.mpr numeral.solid
  | quotient numerator denominator =>
    simp only [Cell.tokens, List.forall_mem_cons, List.not_mem_nil, false_imp_iff, implies_true,
      and_true]
    exact ⟨numerator.solid, ⟨'/', [], rfl, by decide⟩, denominator.solid⟩

/-- The tokens of listed items are solid if those of the items are. -/
theorem solid_listed {items : List (List (List Char))}
    (solid : ∀ item ∈ items, ∀ token ∈ item, Solid token) :
    ∀ token ∈ listed items, Solid token := by
  intro token member
  cases items with
  | nil =>
    simp only [listed, List.mem_cons, List.not_mem_nil, or_false] at member
    rcases member with rfl | rfl <;> exact solid_cons (by decide)
  | cons first rest =>
    simp only [listed, List.mem_append, List.mem_cons, List.mem_flatMap, List.not_mem_nil,
      or_false] at member
    rcases member with ((rfl | inFirst) | ⟨item, inRest, rfl | inItem⟩) | rfl
    · exact solid_cons (by decide)
    · exact solid first List.mem_cons_self token inFirst
    · exact solid_cons (by decide)
    · exact solid item (List.mem_cons_of_mem first inRest) token inItem
    · exact solid_cons (by decide)

/-- The tokens of listed names are solid. -/
theorem solid_names (names : List Name) :
    ∀ token ∈ listed (names.map Name.tokens), Solid token := by
  apply solid_listed
  simp only [List.mem_map]
  rintro _ ⟨name, -, rfl⟩
  exact List.forall_mem_singleton.mpr name.solid

/-- The tokens of a row are solid. -/
theorem solid_row (cells : List Cell) : ∀ token ∈ rowTokens cells, Solid token := by
  have solid : ∀ token ∈ listed (cells.map Cell.tokens), Solid token := by
    apply solid_listed
    simp only [List.mem_map]
    rintro _ ⟨cell, -, rfl⟩
    exact cell.solid
  exact List.forall_mem_append.mpr
    ⟨solid, List.forall_mem_singleton.mpr (solid_cons (by decide))⟩

/-- The tokens of a header are solid. -/
theorem Header.solid (header : Header) : ∀ token ∈ header.tokens, Solid token := by
  intro token member
  cases header with
  | inputs names | outputs names =>
    simp only [tokens, List.mem_append, List.mem_cons, List.not_mem_nil, or_false] at member
    rcases member with (rfl | rfl | inNames) | rfl
    · exact solid_cons (by decide)
    · exact solid_cons (by decide)
    · exact solid_names names token inNames
    · exact solid_cons (by decide)
  | ranges input output =>
    simp only [tokens, List.mem_cons, List.not_mem_nil, or_false] at member
    rcases member with rfl | rfl | rfl | rfl | rfl | rfl
    · exact solid_cons (by decide)
    · exact solid_cons (by decide)
    · exact input.solid
    · exact solid_cons (by decide)
    · exact output.solid
    · exact solid_cons (by decide)

/-- All tokens of a document are solid. -/
theorem Document.solid (document : Document) : ∀ token ∈ document.tokens, Solid token := by
  intro token member
  simp only [tokens, List.mem_append, List.mem_flatMap] at member
  rcases member with ⟨header, -, inHeader⟩ | ⟨cells, -, inRow⟩
  · exact header.solid token inHeader
  · exact solid_row cells token inRow

/-- The grammar finds the documents that a source lays out up to its end. -/
theorem exists_find_program_iff_laid :
    (∃ after, Grammar.program.find source = some (found, after))
      ↔ ∃ document : Document, found = [document.part] ∧ Laid document.tokens source [] := by
  rw [exists_find_program_iff]
  refine exists_congr fun document => and_congr_right fun _ => ?_
  constructor
  · intro reaches
    have laid := laid_of_reaches reaches
    rwa [Grammar.settle_nil] at laid
  · exact fun laid => laid.reaches document.solid (by simp)

end Nonlocal.Source.Language
