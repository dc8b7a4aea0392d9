import Nonlocal.Proofs.Source.Numbers
import Nonlocal.Proofs.Source.Reading

/-!
# The sources that are accepted

Declarations and rows are read one by one into a draft. Each step keeps what the draft and
the items that are still to be read say together, so that in the end the program says what
the document says. A source is accepted if and only if it lays a document out that says
something, and then it is read as what the document says, with the numbers that its cells
write.
-/

namespace Nonlocal.Source

namespace Draft

open Nonlocal.Source.Language

/-- What is said if headers and rows that are still to be read complete a draft. -/
def completed? (draft : Draft) (headers : List Header) (rows : List (List Cell)) :
    Option Content := do
  let inputs ← only? (draft.inputs.toList.map (·.map Spanned.node)
    ++ headers.filterMap Header.inputs?)
  let outputs ← only? (draft.outputs.toList.map (·.map Spanned.node)
    ++ headers.filterMap Header.outputs?)
  let read? ← only? (draft.ranges.toList.map (fun ranges => some ranges.node)
    ++ (headers.filterMap Header.ranges?).map fun pair => ranges? pair.1 pair.2)
  let ranges ← read?
  let rows ← rows.mapM (·.mapM Cell.literal?)
  some ⟨inputs, outputs, ranges, draft.rows.reverse.map Spanned.node ++ rows⟩

variable {draft : Draft} {headers : List Header} {rows : List (List Cell)} {node : Node}

/-- Reading a declaration of inputs keeps what is said: after another one there is an error,
and the list of all of them has more than one element. -/
theorem completed?_readItem_inputs {names : List Name}
    (same : node.part = (Header.inputs names).part) :
    ((draft.readItem node).toOption.bind fun next => next.completed? headers rows)
      = draft.completed? (.inputs names :: headers) rows := by
  obtain ⟨isInputs, -, -⟩ := Node.part_eq_mk_iff.mp same
  obtain ⟨list, isList, texts⟩ := Option.map_eq_some_iff.mp (readNames_part (by decide) same)
  obtain ⟨inputs, outputs, ranges, done⟩ := draft
  simp only [readItem, isInputs]
  cases inputs with
  | some old => simp [completed?, only?, Header.inputs?]
  | none =>
    rw [if_neg (by simp), Attempt.toOption_bind, isList]
    simp [completed?, List.filterMap_cons, Header.inputs?, Header.outputs?, Header.ranges?, texts]

/-- Reading a declaration of outputs keeps what is said. -/
theorem completed?_readItem_outputs {names : List Name}
    (same : node.part = (Header.outputs names).part) :
    ((draft.readItem node).toOption.bind fun next => next.completed? headers rows)
      = draft.completed? (.outputs names :: headers) rows := by
  obtain ⟨isOutputs, -, -⟩ := Node.part_eq_mk_iff.mp same
  obtain ⟨list, isList, texts⟩ := Option.map_eq_some_iff.mp (readNames_part (by decide) same)
  obtain ⟨inputs, outputs, ranges, done⟩ := draft
  simp only [readItem, isOutputs]
  cases outputs with
  | some old => simp [completed?, only?, Header.outputs?]
  | none =>
    rw [if_neg (by simp), Attempt.toOption_bind, isList]
    simp [completed?, List.filterMap_cons, Header.inputs?, Header.outputs?, Header.ranges?, texts]

/-- Ranges that are no words cannot be used, whether or not there are others. -/
theorem only?_none_cons {α β : Type} (rest : List (Option α)) (use? : α → Option β) :
    ((only? (none :: rest)).bind fun read? => read?.bind use?) = none := by
  cases rest <;> rfl

/-- Reading a declaration of ranges keeps what is said. -/
theorem completed?_readItem_ranges {input output : Digits}
    (same : node.part = (Header.ranges input output).part) :
    ((draft.readItem node).toOption.bind fun next => next.completed? headers rows)
      = draft.completed? (.ranges input output :: headers) rows := by
  obtain ⟨isRanges, -, -⟩ := Node.part_eq_mk_iff.mp same
  have read := readRanges_part same
  obtain ⟨inputs, outputs, ranges, done⟩ := draft
  simp only [readItem, isRanges]
  cases ranges with
  | some old => simp [completed?, only?, Header.ranges?]
  | none =>
    rw [if_neg (by simp), Attempt.toOption_bind]
    cases step : (readRanges node).toOption with
    | none =>
      rw [step] at read
      simp [completed?, List.filterMap_cons, Header.ranges?, ← read, only?_none_cons]
    | some ranges =>
      rw [step] at read
      simp [completed?, List.filterMap_cons, Header.inputs?, Header.outputs?, Header.ranges?,
        ← read]

/-- Reading a row keeps what is said. -/
theorem completed?_readItem_row {cells : List Cell} (same : node.part = rowPart cells) :
    ((draft.readItem node).toOption.bind fun next => next.completed? headers rows)
      = draft.completed? headers (cells :: rows) := by
  obtain ⟨isRow, -, -⟩ := Node.part_eq_mk_iff.mp same
  have read := readRow_part same
  simp only [readItem, isRow, Attempt.toOption_bind]
  cases step : (readRow node).toOption with
  | none =>
    rw [step] at read
    simp [completed?, ← read]
  | some row =>
    rw [step] at read
    simp [completed?, Option.bind_assoc, ← read]

/-- At the end a draft is the program. -/
theorem content_program (draft : Draft) (span : Span) :
    (draft.program span).toOption.map Program.content = draft.completed? [] [] := by
  obtain ⟨inputs, outputs, ranges, done⟩ := draft
  cases inputs with
  | none => rfl
  | some inputs =>
    cases outputs with
    | none => rfl
    | some outputs =>
      cases ranges with
      | none => rfl
      | some ranges => simp [program, completed?, only?, Program.content]

/-- Reading a header keeps what is said. -/
theorem completed?_readItem_header {header : Header} (same : node.part = header.part) :
    ((draft.readItem node).toOption.bind fun next => next.completed? headers rows)
      = draft.completed? (header :: headers) rows := by
  cases header with
  | inputs names => exact completed?_readItem_inputs same
  | outputs names => exact completed?_readItem_outputs same
  | ranges input output => exact completed?_readItem_ranges same

/-- Reading all the items completes a draft. -/
theorem content_foldlM (draft : Draft) {nodes : List Node} (same : nodes.map Node.part
      = headers.map Header.part ++ (rows.map rowPart ++ [.mk .endOfInput [] []])) (span : Span) :
    ((nodes.foldlM readItem draft).toOption.bind fun last =>
        (last.program span).toOption.map Program.content)
      = draft.completed? headers rows := by
  induction headers generalizing draft nodes with
  | cons header headers inductionHypothesis =>
    obtain ⟨node, others, rfl, first, later⟩ := List.map_eq_cons_iff.mp same
    rw [List.foldlM_cons, Attempt.toOption_bind, Option.bind_assoc]
    simp only [inductionHypothesis _ later]
    exact completed?_readItem_header first
  | nil =>
    induction rows generalizing draft nodes with
    | cons cells rows inductionHypothesis =>
      obtain ⟨node, others, rfl, first, later⟩ := List.map_eq_cons_iff.mp same
      rw [List.foldlM_cons, Attempt.toOption_bind, Option.bind_assoc]
      simp only [inductionHypothesis _ later]
      exact completed?_readItem_row first
    | nil =>
      obtain ⟨node, others, rfl, isEnd, later⟩ := List.map_eq_cons_iff.mp same
      obtain ⟨isRule, -, -⟩ := Node.part_eq_mk_iff.mp isEnd
      rw [List.map_eq_nil_iff.mp later]
      simp only [List.foldlM_cons, List.foldlM_nil, readItem, isRule]
      exact content_program draft span

end Draft

namespace Language

/-- The only element is told by the only element of a list that is mapped to it. -/
theorem only?_map {α β : Type} (f : α → β) (list : List α) :
    only? (list.map f) = (only? list).map f := by
  match list with
  | [] | [_] | _ :: _ :: _ => rfl

/-- From a node that stands for a document a program is read that says what the document says,
if it says something. -/
theorem content_readProgram {node : Node} {document : Document} (same : node.part = document.part) :
    (readProgram node).toOption.map Program.content = document.content? := by
  obtain ⟨-, -, inside⟩ := Node.part_eq_mk_iff.mp same
  have read := Draft.content_foldlM {} inside node.span
  rw [readProgram, Attempt.toOption_bind, Option.map_bind]
  refine read.trans ?_
  simp only [Draft.completed?, Option.toList_none, List.map_nil, List.nil_append, only?_map,
    Option.bind_eq_bind, Option.bind_map, List.reverse_nil]
  rfl

end Language

/-- What is read as a program is a node that the grammar finds. -/
theorem exists_find_of_parse {source : List Char} {program : Program}
    (parsed : parse source = .ok program) :
    ∃ node more after, Grammar.program.find source = some (Node.part node :: more, after)
      ∧ readProgram node = .ok program := by
  have told := Grammar.program.told_run (Cursor.start source) Failures.none
  simp only [parse, Pattern.runAll] at parsed
  split at parsed
  · cases parsed
  · next failures node more last ran =>
    rw [ran] at told
    exact ⟨node, more.map Node.part, last.rest, told.symm, parsed⟩
  · cases parsed

/-- If the grammar finds one part, a node that stands for it is read as the program. -/
theorem parse_of_find {source after : List Char} {part : Part}
    (found : Grammar.program.find source = some ([part], after)) :
    ∃ node : Node, node.part = part ∧ parse source = readProgram node := by
  have told := Grammar.program.told_run (Cursor.start source) Failures.none
  rw [show (Cursor.start source).rest = source from rfl, found] at told
  obtain ⟨⟨nodes, last⟩, isFound, parts⟩ := Option.map_eq_some_iff.mp told
  obtain ⟨onePart, -⟩ := Prod.mk.inj parts
  obtain ⟨node, rfl, same⟩ := List.map_eq_singleton_iff.mp onePart
  refine ⟨node, same, ?_⟩
  rcases ran : Grammar.program.run (Cursor.start source) Failures.none with ⟨failures, found?⟩
  rw [ran] at isFound
  simp only [parse, Pattern.runAll, ran]
  obtain rfl : found? = some ([node], last) := isFound
  rfl

namespace Language

variable {source : List Char} {document : Document} {content : Content}

/-- A source that is read as a program lays out a document that says what the program says. -/
theorem exists_laid_of_parse {program : Program} (parsed : parse source = .ok program) :
    ∃ document : Document, document.content? = some program.content
      ∧ Laid document.tokens source [] := by
  obtain ⟨node, more, after, found, read⟩ := exists_find_of_parse parsed
  obtain ⟨document, one, laid⟩ := exists_find_program_iff_laid.mp ⟨after, found⟩
  obtain ⟨same, -⟩ := List.cons.inj one
  refine ⟨document, ?_, laid⟩
  rw [← content_readProgram same, read]
  rfl

/-- A source that lays out a document that says something is read as what it says. -/
theorem exists_parse_of_laid (said : document.content? = some content)
    (laid : Laid document.tokens source []) :
    ∃ program, parse source = .ok program ∧ program.content = content := by
  obtain ⟨after, found⟩ := exists_find_program_iff_laid.mpr ⟨document, rfl, laid⟩
  obtain ⟨node, same, parsed⟩ := parse_of_find found
  rw [← content_readProgram same, ← parsed] at said
  obtain ⟨program, isProgram, same⟩ := Option.map_eq_some_iff.mp said
  exact ⟨program, Attempt.eq_ok_of_toOption isProgram, same⟩

/-- What a document says has the literals that its cells write. -/
theorem literals_of_content? (said : document.content? = some content) :
    document.rows.mapM (·.mapM Cell.literal?) = some content.rows := by
  simp only [Document.content?, Option.bind_eq_bind, Option.bind_eq_some_iff] at said
  obtain ⟨_, -, _, -, _, -, _, -, rows, written, same⟩ := said
  obtain rfl := Option.some.inj same
  exact written

end Language

/-- The numbers of the box of a program are those of its literals. -/
theorem Program.matrix_toBox {α : Type} [Div α] [Scalar α] (program : Program) :
    (program.toBox : Box α).matrix = program.content.rows.map (·.map Literal.value) := by
  simp [toBox, content]

/-- A source is read as a program that says something, and whose box has given numbers, if and
only if it lays out a document that says it and whose cells write these numbers: exactly over
the rationals, and rounded to the nearest ones over binary64 numbers. -/
theorem parse_iff_laid (source : List Char) (content : Language.Content) (exact : List (List ℚ))
    (rounded : List (List Float)) :
    (∃ program, parse source = .ok program ∧ program.content = content
        ∧ (program.toBox : Box ℚ).matrix = exact ∧ (program.toBox : Box Float).matrix = rounded)
      ↔ ∃ document : Language.Document, document.content? = some content
        ∧ Language.Laid document.tokens source []
        ∧ document.rows.map (·.map Language.Cell.number) = exact
        ∧ List.Forall₂ (List.Forall₂ Language.Cell.RoundsTo) document.rows rounded := by
  simp only [Program.matrix_toBox]
  constructor
  · rintro ⟨program, parsed, rfl, rfl, rfl⟩
    obtain ⟨document, said, laid⟩ := Language.exists_laid_of_parse parsed
    have written := Language.literals_of_content? said
    exact ⟨document, said, laid, Language.rows_exact written, Language.rows_rounded written⟩
  · rintro ⟨document, said, laid, rfl, rounds⟩
    obtain ⟨program, parsed, rfl⟩ := Language.exists_parse_of_laid said laid
    have written := Language.literals_of_content? said
    exact ⟨program, parsed, rfl, (Language.rows_exact written).symm,
      Language.rounded_unique (Language.rows_rounded written) rounds⟩

end Nonlocal.Source
