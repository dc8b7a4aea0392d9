import Nonlocal.Proofs.Source.Accepted
import Nonlocal.Proofs.Source.Matched

/-!
# Where a program was read

A source does not match, or it is one node from its first byte to its last that stands for
a document. What a program says was read from the items inside this node: each declaration
from one item of its kind, the rows from all items that are rows, in their order. A step of
the reader is described once by what it does to the draft; that the draft was read from the
items so far is kept by every step.
-/

namespace Nonlocal.Source

open Text (Boundary utf8Length)

variable {source : List Char} {node item : Node}

/-- What matching finds of a source is one node that lies over the whole source and stands for a
document, and it is what is read. -/
theorem exists_document {nodes : List Node} {last : Cursor source}
    (isFound : (Grammar.program.runAll source).found? = some (nodes, last)) :
    ∃ (node : Node) (document : Language.Document), nodes = [node] ∧ node.Found source
      ∧ node.span = ⟨0, utf8Length source⟩ ∧ node.part = document.part
      ∧ parse source = readProgram node := by
  have placed := Grammar.program.placed_run Grammar.follows_program (Cursor.start source)
    Failures.none (Text.boundary_zero source)
  have matched := Grammar.program.matched_of_found Grammar.follows_program isFound
  obtain ⟨children, rfl, -⟩ := Pattern.found_named isFound
  obtain ⟨told, -⟩ := Pattern.exists_taken isFound
  obtain ⟨document, one, -⟩ := Language.exists_find_program_iff_laid.mp ⟨last.rest, told⟩
  obtain ⟨_, inDocument, -⟩ := Language.find_program_eq_some_iff.mp told
  have ended := last.offset_add
  rw [Language.eq_nil_of_find_document inDocument, Text.utf8Length_nil, Nat.add_zero] at ended
  have whole := (placed.found _ last isFound).placed List.mem_cons_self
  refine ⟨_, document, rfl, ⟨matched _ List.mem_cons_self, whole.1⟩, congrArg (Span.mk 0) ended,
    (List.cons.inj one).1, ?_⟩
  rw [parse]
  rcases ran : Grammar.program.runAll source with ⟨failures, found?⟩
  rw [ran] at isFound
  obtain rfl : found? = _ := isFound
  rfl

/-- Reading a source fails at a place between characters, or what is read is a node that lies
over the whole source. -/
theorem parse_cases (source : List Char) :
    (∃ failures : Failures, Boundary source failures.offset
        ∧ parse source = .error (.ofFailures source failures))
      ∨ ∃ (node : Node) (document : Language.Document), node.Found source
        ∧ node.span = ⟨0, utf8Length source⟩ ∧ node.part = document.part
        ∧ parse source = readProgram node := by
  rcases ran : Grammar.program.runAll source with ⟨failures, _ | ⟨nodes, last⟩⟩
  · have placed := Grammar.program.placed_run Grammar.follows_program (Cursor.start source)
      Failures.none (Text.boundary_zero source)
    rw [← Pattern.runAll, ran] at placed
    exact .inl ⟨failures, placed.failures, by rw [parse, ran]⟩
  · have isFound : (Grammar.program.runAll source).found? = some (nodes, last) := by rw [ran]
    obtain ⟨node, document, -, found⟩ := exists_document isFound
    exact .inr ⟨node, document, found⟩

/-- An item inside a node that stands for a document is a header, a row or the end. -/
theorem item_cases {document : Language.Document} (same : node.part = document.part)
    (member : item ∈ node.children) :
    (∃ header : Language.Header, item.part = header.part)
      ∨ (∃ cells, item.part = Language.rowPart cells) ∨ item.part = .mk .endOfInput [] [] := by
  obtain ⟨-, -, inside⟩ := Node.part_eq_mk_iff.mp same
  have among := List.mem_map_of_mem (f := Node.part) member
  rw [inside] at among
  rcases List.mem_append.mp among with header | others
  · obtain ⟨header, -, isHeader⟩ := List.mem_map.mp header
    exact .inl ⟨header, isHeader.symm⟩
  · rcases List.mem_append.mp others with row | ended
    · obtain ⟨cells, -, isRow⟩ := List.mem_map.mp row
      exact .inr (.inl ⟨cells, isRow.symm⟩)
    · exact .inr (.inr (List.mem_singleton.mp ended))

namespace Draft

variable {draft next : Draft}

/-- What reading one more item does to a draft. -/
theorem readItem_cases (read : draft.readItem item = .ok next) :
    (item.rule = .inputs ∧ ∃ names, readNames item = .ok names
        ∧ next = { draft with inputs := some names })
      ∨ (item.rule = .outputs ∧ ∃ names, readNames item = .ok names
        ∧ next = { draft with outputs := some names })
      ∨ (item.rule = .ranges ∧ ∃ ranges, readRanges item = .ok ranges
        ∧ next = { draft with ranges := some ranges })
      ∨ (item.rule = .row ∧ ∃ row, readRow item = .ok row
        ∧ next = { draft with rows := row :: draft.rows })
      ∨ ((∀ rule ∈ [.inputs, .outputs, .ranges, .row], item.rule ≠ rule) ∧ next = draft) := by
  unfold readItem at read
  split at read
  · next isInputs =>
    split at read
    · cases read
    · obtain ⟨names, isNames, same⟩ := (Attempt.bind_eq_ok_iff _ _ _).mp read
      exact .inl ⟨isInputs, names, isNames, (Except.ok.inj same).symm⟩
  · next isOutputs =>
    split at read
    · cases read
    · obtain ⟨names, isNames, same⟩ := (Attempt.bind_eq_ok_iff _ _ _).mp read
      exact .inr (.inl ⟨isOutputs, names, isNames, (Except.ok.inj same).symm⟩)
  · next isRanges =>
    split at read
    · cases read
    · obtain ⟨ranges, isRead, same⟩ := (Attempt.bind_eq_ok_iff _ _ _).mp read
      exact .inr (.inr (.inl ⟨isRanges, ranges, isRead, (Except.ok.inj same).symm⟩))
  · next isRow =>
    obtain ⟨row, isRead, same⟩ := (Attempt.bind_eq_ok_iff _ _ _).mp read
    exact .inr (.inr (.inr (.inl ⟨isRow, row, isRead, (Except.ok.inj same).symm⟩)))
  · next noInputs noOutputs noRanges noRow =>
    refine .inr (.inr (.inr (.inr ⟨?_, (Except.ok.inj read).symm⟩)))
    simpa using ⟨noInputs, noOutputs, noRanges, noRow⟩

/-- What is there was read from one of the items of its kind. -/
def Origin {α : Type} (items : List Node) (rule : Rule) (read : Node → Except ParseError α)
    (value? : Option α) : Prop :=
  ∀ value, value? = some value → ∃ item ∈ items, item.rule = rule ∧ read item = .ok value

section

variable {α : Type} {items : List Node} {rule : Rule} {read : Node → Except ParseError α}

/-- It was so among more items. -/
theorem Origin.more {value? : Option α} (origin : Origin items rule read value?) (item : Node) :
    Origin (items ++ [item]) rule read value? := by
  intro value isValue
  obtain ⟨source, member, isRead⟩ := origin value isValue
  exact ⟨source, List.mem_append_left _ member, isRead⟩

/-- It was read from the last item. -/
theorem origin_last {value : α} (isRule : item.rule = rule) (isRead : read item = .ok value) :
    Origin (items ++ [item]) rule read (some value) := by
  intro _ same
  obtain rfl := Option.some.inj same
  exact ⟨item, List.mem_append_right _ List.mem_cons_self, isRule, isRead⟩

end

/-- What is in a draft was read from some items. -/
structure ReadFrom (items : List Node) (draft : Draft) : Prop where
  inputs : Origin items .inputs readNames draft.inputs
  outputs : Origin items .outputs readNames draft.outputs
  ranges : Origin items .ranges readRanges draft.ranges
  rows : (items.filter (·.rule = .row)).mapM readRow = .ok draft.rows.reverse

/-- Reading one more item keeps what is in the draft, and what it adds was read from the
item. -/
theorem ReadFrom.readItem {items : List Node} (isRead : ReadFrom items draft)
    (read : draft.readItem item = .ok next) : ReadFrom (items ++ [item]) next := by
  obtain ⟨inputs, outputs, ranges, rows⟩ := isRead
  have noRow (others : item.rule ≠ .row) :
      ((items ++ [item]).filter (·.rule = .row)).mapM readRow = .ok draft.rows.reverse := by
    simpa [List.filter_append, others] using rows
  rcases readItem_cases read with ⟨isInputs, names, isNames, rfl⟩ | ⟨isOutputs, names, isNames, rfl⟩
    | ⟨isRanges, _, inRanges, rfl⟩ | ⟨isRow, row, inRow, rfl⟩ | ⟨others, rfl⟩
  · exact ⟨origin_last isInputs isNames, outputs.more item, ranges.more item,
      noRow (by rw [isInputs]; decide)⟩
  · exact ⟨inputs.more item, origin_last isOutputs isNames, ranges.more item,
      noRow (by rw [isOutputs]; decide)⟩
  · exact ⟨inputs.more item, outputs.more item, origin_last isRanges inRanges,
      noRow (by rw [isRanges]; decide)⟩
  · refine ⟨inputs.more item, outputs.more item, ranges.more item, ?_⟩
    have alone : [item].mapM readRow = .ok [row] := by
      rw [List.mapM_cons, inRow]
      rfl
    rw [List.filter_append, List.filter_cons_of_pos (by simpa using isRow), List.mapM_append, rows]
    simp [alone, bind, Except.bind, pure, Except.pure]
  · exact ⟨inputs.more item, outputs.more item, ranges.more item,
      noRow (others _ (by decide))⟩

/-- So does reading several items. -/
theorem ReadFrom.foldlM {items more : List Node} (isRead : ReadFrom items draft)
    (read : more.foldlM Draft.readItem draft = .ok next) : ReadFrom (items ++ more) next := by
  induction more generalizing items draft with
  | nil =>
    obtain rfl := Except.ok.inj read
    rwa [List.append_nil]
  | cons item rest inductionHypothesis =>
    rw [List.foldlM_cons] at read
    obtain ⟨middle, first, later⟩ := (Attempt.bind_eq_ok_iff _ _ _).mp read
    rw [List.append_cons]
    exact inductionHypothesis (isRead.readItem first) later

/-- Nothing was read from no items. -/
theorem readFrom_nil : ReadFrom [] {} := ⟨by rintro _ ⟨⟩, by rintro _ ⟨⟩, by rintro _ ⟨⟩, rfl⟩

end Draft

/-- What a program says was read from the items inside a node. -/
structure Program.ReadFrom (node : Node) (program : Program) : Prop where
  span : program.span = node.span
  inputs : ∃ item ∈ node.children, item.rule = .inputs ∧ readNames item = .ok program.inputs
  outputs : ∃ item ∈ node.children, item.rule = .outputs ∧ readNames item = .ok program.outputs
  ranges : ∃ item ∈ node.children, item.rule = .ranges ∧ readRanges item = .ok program.ranges
  rows : (node.childrenOf .row).mapM readRow = .ok program.rows

/-- A program that is read from a node is read from the items inside it. -/
theorem readFrom_of_readProgram {program : Program} (read : readProgram node = .ok program) :
    program.ReadFrom node := by
  obtain ⟨draft, items, completed⟩ := (Attempt.bind_eq_ok_iff _ _ _).mp read
  obtain ⟨inputs, outputs, ranges, rows⟩ := Draft.readFrom_nil.foldlM items
  unfold Draft.program at completed
  split at completed
  · cases completed
  · cases completed
  · cases completed
  · next declaredInputs declaredOutputs declaredRanges isInputs isOutputs isRanges =>
    obtain rfl := Except.ok.inj completed
    exact ⟨rfl, inputs _ isInputs, outputs _ isOutputs, ranges _ isRanges, rows⟩

/-- A program that is read of a source is read from a node that lies over the whole source,
and says what a document says. -/
theorem exists_origin {program : Program} (parsed : parse source = .ok program) :
    ∃ (node : Node) (document : Language.Document), node.Placed source
      ∧ node.span = ⟨0, utf8Length source⟩ ∧ program.ReadFrom node
      ∧ document.content? = some program.content := by
  rcases parse_cases source with ⟨_, -, failed⟩ | ⟨node, document, found, whole, same, read⟩
  · cases failed.symm.trans parsed
  · rw [parsed] at read
    refine ⟨node, document, found.placed, whole, readFrom_of_readProgram read.symm, ?_⟩
    rw [← Language.content_readProgram same, ← read]
    rfl

/-- The names of a declaration were read from the identifiers in its list. -/
theorem readNames_eq_ok {names : List (Spanned String)} (read : readNames item = .ok names) :
    ∃ list ∈ item.children, names
      = (list.childrenOf .identifier).map fun name => ⟨String.ofList name.text, name.span⟩ := by
  unfold readNames at read
  split at read
  · cases read
  · next list more isList =>
    have member : list ∈ item.childrenOf .names := by rw [isList]; exact List.mem_cons_self
    exact ⟨list, List.mem_of_mem_filter member, (Except.ok.inj read).symm⟩

/-- The ranges of a declaration have its span. -/
theorem span_of_readRanges {ranges : Spanned Ranges} (read : readRanges item = .ok ranges) :
    ranges.span = item.span := by
  unfold readRanges at read
  split at read
  · cases read
  · cases read
  · obtain ⟨_, -, further⟩ := (Attempt.bind_eq_ok_iff _ _ _).mp read
    obtain ⟨_, -, same⟩ := (Attempt.bind_eq_ok_iff _ _ _).mp further
    exact congrArg Spanned.span (Except.ok.inj same).symm

/-- The values of a row have its span. -/
theorem span_of_readRow {row : Spanned (List Literal)} (read : readRow item = .ok row) :
    row.span = item.span := by
  obtain ⟨_, -, same⟩ := (Attempt.bind_eq_ok_iff _ _ _).mp read
  exact congrArg Spanned.span (Except.ok.inj same).symm

end Nonlocal.Source
