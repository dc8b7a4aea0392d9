import Mathlib.Data.List.Pairwise
import Nonlocal.Proofs.Source.Excerpts
import Nonlocal.Proofs.Source.Origins

/-!
# The spans of a program

Every span of a program can be sliced out of its source. What is sliced out is the name, the
declaration of the ranges, or the row that the span was kept for; a row is taken as text
that is a row again behind any headers. Names follow each other inside their declaration
and rows follow each other, while declarations, in whatever order they come, lie apart.
-/

namespace Nonlocal

/-- A span with bytes that all come before those of another. -/
def Span.Before (first second : Span) : Prop :=
  first.start < first.stop ∧ first.stop ≤ second.start

/-- Spans without a common byte. -/
def Span.Apart (first second : Span) : Prop :=
  first.stop ≤ second.start ∨ second.stop ≤ first.start

/-- A span within another. -/
def Span.Inside (inner outer : Span) : Prop :=
  outer.start ≤ inner.start ∧ inner.stop ≤ outer.stop

namespace Span

/-- What lies within a part lies within the whole. -/
theorem Inside.trans {inner middle outer : Span} (inside : inner.Inside middle)
    (further : middle.Inside outer) : inner.Inside outer :=
  ⟨Nat.le_trans further.1 inside.1, Nat.le_trans inside.2 further.2⟩

/-- Of two spans only one comes before the other. -/
theorem Before.asymm {first second : Span} (before : first.Before second) :
    ¬second.Before first := by
  intro after
  have := before.1.trans_le (before.2.trans (after.1.le.trans after.2))
  exact lt_irrefl _ this

/-- What lies within spans that are apart is apart. -/
theorem Apart.mono {first second outer outer' : Span} (apart : outer.Apart outer')
    (inside : first.Inside outer) (inside' : second.Inside outer') : first.Apart second :=
  apart.imp (fun before => Nat.le_trans inside.2 (Nat.le_trans before inside'.1))
    fun before => Nat.le_trans inside'.2 (Nat.le_trans before inside.1)

end Span

namespace Source

open Text (Boundary Slices utf8Length)
open Nonlocal.Source.Language (Content Document Header Laid)

variable {source : List Char} {program : Program} {node item : Node} {document : Document}

/-- The spans of the names, the ranges and the rows. -/
def Program.spans (program : Program) : List Span :=
  program.inputs.map (·.span) ++ (program.outputs.map (·.span)
    ++ program.ranges.span :: program.rows.map (·.span))

/-- A text is a row with the given values: behind any headers that say something it is read as
the only row. -/
def IsRow (values : List Literal) (text : List Char) : Prop :=
  ∀ (headers : List Header) (content : Content) (heading : List Char),
    (Document.mk headers []).content? = some content →
    Laid (headers.flatMap Header.tokens) (heading ++ text) text →
    ∃ program, parse (heading ++ text) = .ok program
      ∧ program.content = { content with rows := [values] }

/-- What the spans of a program promise. -/
structure Program.Faithful (source : List Char) (program : Program) : Prop where
  whole : program.span = ⟨0, utf8Length source⟩
  names : ∀ name ∈ program.names, Slices source name.span name.node.toList
  ranges : ∃ text, Slices source program.ranges.span text
    ∧ "range".toList <+: text ∧ [';'] <:+ text
  rows : ∀ row ∈ program.rows, ∃ text, Slices source row.span text
    ∧ ['['] <+: text ∧ [';'] <:+ text ∧ IsRow row.node text
  boundaries : ∀ span ∈ program.span :: program.spans,
    Boundary source span.start ∧ Boundary source span.stop
  inputsAscend : (program.inputs.map (·.span)).Pairwise Span.Before
  outputsAscend : (program.outputs.map (·.span)).Pairwise Span.Before
  rowsAscend : (program.rows.map (·.span)).Pairwise Span.Before
  apart : program.spans.Pairwise Span.Apart

namespace Language

/-- A document with one row says what its headers and its row say. -/
theorem content?_row (headers : List Header) (cells : List Cell) :
    (Document.mk headers [cells]).content?
      = (Document.mk headers []).content?.bind fun content =>
          (cells.mapM Cell.literal?).map fun values => { content with rows := [values] } := by
  simp only [Document.content?, Option.bind_eq_bind, Option.bind_assoc]
  refine Option.bind_congr fun inputs _ => Option.bind_congr fun outputs _ =>
    Option.bind_congr fun pair _ => Option.bind_congr fun ranges _ => ?_
  simp only [List.mapM_cons, List.mapM_nil, Option.bind_eq_bind, Option.pure_def]
  cases cells.mapM Cell.literal? <;> rfl

/-- The names that a header declares are identifiers. -/
theorem isIdentifier_of_names {names : List Name} {declared : List String}
    (same : names.map Name.text = declared) :
    ∀ name ∈ declared, Identifier.isIdentifier name = true := by
  subst same
  intro name member
  obtain ⟨piece, -, rfl⟩ := List.mem_map.mp member
  exact piece.identifier

/-- The only element of a list is in it. -/
theorem mem_of_only? {α : Type} {list : List α} {element : α} (only : only? list = some element) :
    element ∈ list := by
  match list, only with
  | [_], rfl => exact List.mem_cons_self

/-- The declared names of what a document says are identifiers. -/
theorem isIdentifier_of_content {document : Document} {content : Content}
    (said : document.content? = some content) :
    ∀ name ∈ content.inputs ++ content.outputs, Identifier.isIdentifier name = true := by
  simp only [Document.content?, Option.bind_eq_bind, Option.bind_eq_some_iff] at said
  obtain ⟨inputs, isInputs, outputs, isOutputs, _, -, _, -, _, -, same⟩ := said
  obtain rfl := Option.some.inj same
  obtain ⟨header, -, declaresInputs⟩ := List.mem_filterMap.mp (mem_of_only? isInputs)
  obtain ⟨header', -, declaresOutputs⟩ := List.mem_filterMap.mp (mem_of_only? isOutputs)
  refine List.forall_mem_append.mpr ⟨?_, ?_⟩
  · cases header with
    | inputs names => exact isIdentifier_of_names (Option.some.inj declaresInputs)
    | outputs | ranges => cases declaresInputs
  · cases header' with
    | outputs names => exact isIdentifier_of_names (Option.some.inj declaresOutputs)
    | inputs | ranges => cases declaresOutputs

/-- The text of a row that was found is a row by itself. -/
theorem isRow_of_placed {row : Spanned (List Literal)} (placed : item.Placed source)
    (isRow : item.rule = .row) (read : readRow item = .ok row) : IsRow row.node item.text := by
  obtain ⟨after, found⟩ := placed.found
  rw [isRow] at found
  obtain ⟨cells, same, laid⟩ := laid_of_find_row found
  have values := readRow_part (List.cons.inj same).1
  rw [read] at values
  intro headers content heading said headed
  apply exists_parse_of_laid
  · rw [content?_row, said, ← values]
    rfl
  · simpa [Document.tokens] using headed.append laid

end Language

/-- What lies inside a part lies within its span. -/
theorem Node.Placed.span_inside {child : Node} (placed : node.Placed source)
    (member : child ∈ node.children) : child.span.Inside node.span :=
  (placed.inside.placed member).2

/-- Different items inside a node lie apart. -/
theorem Node.Placed.apart {first second : Node} (placed : node.Placed source)
    (firstMember : first ∈ node.children) (secondMember : second ∈ node.children)
    (different : first.rule ≠ second.rule) : first.span.Apart second.span := by
  have ordered : node.children.Pairwise fun one other => one.span.Apart other.span :=
    placed.inside.pairwise.imp .inl
  have symmetric : Std.Symm fun one other : Node => one.span.Apart other.span :=
    ⟨fun _ _ => Or.symm⟩
  exact ordered.forall firstMember secondMember fun same => different (congrArg Node.rule same)

/-- Parts of a kind inside a node, none of them empty, come one before the other. -/
theorem Node.Placed.childrenOf_before (placed : node.Placed source) (rule : Rule)
    (nonempty : ∀ child ∈ node.childrenOf rule, child.text ≠ []) :
    ((node.childrenOf rule).map Node.span).Pairwise Span.Before := by
  have ordered : (node.childrenOf rule).Pairwise fun one other => one.stop ≤ other.start :=
    placed.inside.pairwise.sublist List.filter_sublist
  rw [List.pairwise_map]
  refine ordered.imp_of_mem fun {one other} member _ before => ⟨?_, before⟩
  exact (placed.child (List.mem_of_mem_filter member)).slices.start_lt_stop (nonempty one member)

/-- A declaration of ranges begins with its word and ends with its semicolon. -/
theorem text_of_ranges (placed : item.Placed source) (isRanges : item.rule = .ranges) :
    "range".toList <+: item.text ∧ [';'] <:+ item.text := by
  obtain ⟨after, found⟩ := placed.found
  rw [isRanges] at found
  obtain ⟨more, begins⟩ := Language.begins_ranges _ _ _ found
  obtain ⟨before, closes⟩ := Language.closes_ranges _ _ _ found
  rw [← List.append_assoc] at begins closes
  exact ⟨⟨more, (List.append_cancel_right begins).symm⟩,
    ⟨before, (List.append_cancel_right closes).symm⟩⟩

/-- A row begins with its bracket and ends with its semicolon. -/
theorem text_of_row (placed : item.Placed source) (isRow : item.rule = .row) :
    ['['] <+: item.text ∧ [';'] <:+ item.text := by
  obtain ⟨after, found⟩ := placed.found
  rw [isRow] at found
  obtain ⟨more, begins⟩ := Language.begins_row _ _ _ found
  obtain ⟨before, closes⟩ := Language.closes_row _ _ _ found
  rw [← List.append_assoc] at begins closes
  exact ⟨⟨more, (List.append_cancel_right begins).symm⟩,
    ⟨before, (List.append_cancel_right closes).symm⟩⟩

/-- Spans each of which lies within an item of a kind. -/
def Covers (node : Node) (rule : Rule) (spans : List Span) : Prop :=
  ∀ span ∈ spans, ∃ item ∈ node.children, item.rule = rule ∧ span.Inside item.span

/-- Spans within items of different kinds are apart. -/
theorem Covers.apart {rule other : Rule} {spans more : List Span} (covers : Covers node rule spans)
    (placed : node.Placed source) (covers' : Covers node other more) (different : rule ≠ other) :
    ∀ first ∈ spans, ∀ second ∈ more, first.Apart second := by
  intro first member second member'
  obtain ⟨item, inside, isRule, within⟩ := covers first member
  obtain ⟨item', inside', isOther, within'⟩ := covers' second member'
  exact (placed.apart inside inside' (by rwa [isRule, isOther])).mono within within'

/-- Names that were read from a placed declaration lie within it. -/
theorem names_inside {names : List (Spanned String)} (placed : item.Placed source)
    (read : readNames item = .ok names) : ∀ name ∈ names, name.span.Inside item.span := by
  intro name member
  obtain ⟨list, inItem, rfl⟩ := readNames_eq_ok read
  obtain ⟨identifier, isIdentifier, rfl⟩ := List.mem_map.mp member
  have within := (placed.child inItem).span_inside (List.mem_of_mem_filter isIdentifier)
  exact within.trans (placed.span_inside inItem)

/-- Names that were read from a placed declaration stand in it, one before the other. -/
theorem names_placed {rule : Rule} {names : List (Spanned String)} (placed : node.Placed source)
    (origin : ∃ item ∈ node.children, item.rule = rule ∧ readNames item = .ok names)
    (nonempty : ∀ name ∈ names, name.node.toList ≠ []) :
    (∀ name ∈ names, Slices source name.span name.node.toList)
      ∧ (names.map (·.span)).Pairwise Span.Before ∧ Covers node rule (names.map (·.span)) := by
  obtain ⟨item, inside, isRule, read⟩ := origin
  obtain ⟨list, inItem, rfl⟩ := readNames_eq_ok read
  have listPlaced := (placed.child inside).child inItem
  refine ⟨?_, ?_, ?_⟩
  · intro name member
    obtain ⟨identifier, isIdentifier, rfl⟩ := List.mem_map.mp member
    rw [String.toList_ofList]
    exact (listPlaced.child (List.mem_of_mem_filter isIdentifier)).slices
  · rw [List.map_map]
    refine listPlaced.childrenOf_before .identifier fun identifier member => ?_
    simpa using nonempty _ (List.mem_map_of_mem member)
  · intro span member
    obtain ⟨name, inNames, rfl⟩ := List.mem_map.mp member
    exact ⟨item, inside, isRule, names_inside (placed.child inside) read name inNames⟩

/-- Ranges that were read from a placed declaration are the whole declaration. -/
theorem ranges_placed {ranges : Spanned Ranges} (placed : node.Placed source)
    (origin : ∃ item ∈ node.children, item.rule = .ranges ∧ readRanges item = .ok ranges) :
    (∃ text, Slices source ranges.span text ∧ "range".toList <+: text ∧ [';'] <:+ text)
      ∧ Covers node .ranges [ranges.span] := by
  obtain ⟨item, inside, isRanges, read⟩ := origin
  have itemPlaced := placed.child inside
  rw [span_of_readRanges read]
  refine ⟨⟨item.text, itemPlaced.slices, text_of_ranges itemPlaced isRanges⟩, ?_⟩
  intro span member
  obtain rfl := List.mem_singleton.mp member
  exact ⟨item, inside, isRanges, Nat.le_refl _, Nat.le_refl _⟩

namespace Program.ReadFrom

variable (readFrom : program.ReadFrom node)

include readFrom

/-- A row was read from an item that is a row. -/
theorem exists_of_mem_rows {row : Spanned (List Literal)} (member : row ∈ program.rows) :
    ∃ item ∈ node.children, item.rule = .row ∧ readRow item = .ok row := by
  obtain ⟨item, inRows, read⟩ := (Attempt.mem_mapM _ _ _ readFrom.rows row).mp member
  obtain ⟨inside, isRow⟩ := List.mem_filter.mp inRows
  exact ⟨item, inside, by simpa using isRow, read⟩

/-- The rows lie within items that are rows. -/
theorem covers_rows : Covers node .row (program.rows.map (·.span)) := by
  intro span member
  obtain ⟨row, inRows, rfl⟩ := List.mem_map.mp member
  obtain ⟨item, inside, isRow, read⟩ := readFrom.exists_of_mem_rows inRows
  exact ⟨item, inside, isRow, by rw [span_of_readRow read]; exact ⟨Nat.le_refl _, Nat.le_refl _⟩⟩

/-- The rows come one before the other. -/
theorem rows_before (placed : node.Placed source) :
    (program.rows.map (·.span)).Pairwise Span.Before := by
  rw [Attempt.map_of_mapM readRow _ _ readFrom.rows Node.span (·.span) fun _ _ => span_of_readRow]
  refine placed.childrenOf_before .row fun item member => ?_
  obtain ⟨inside, isRow⟩ := List.mem_filter.mp member
  obtain ⟨_, closes⟩ := text_of_row (placed.child inside) (by simpa using isRow)
  rintro empty
  rw [empty, List.suffix_nil] at closes
  cases closes

/-- Each row is sliced out as the text of a row. -/
theorem rows_placed (placed : node.Placed source) : ∀ row ∈ program.rows, ∃ text,
    Slices source row.span text ∧ ['['] <+: text ∧ [';'] <:+ text ∧ IsRow row.node text := by
  intro row member
  obtain ⟨item, inside, isRow, read⟩ := readFrom.exists_of_mem_rows member
  have itemPlaced := placed.child inside
  obtain ⟨begins, closes⟩ := text_of_row itemPlaced isRow
  rw [span_of_readRow read]
  exact ⟨item.text, itemPlaced.slices, begins, closes,
    Language.isRow_of_placed itemPlaced isRow read⟩

end Program.ReadFrom

/-- The names of a program that says what a document says are identifiers. -/
theorem Program.isIdentifier_of_mem_names (said : document.content? = some program.content) :
    ∀ name ∈ program.names, Identifier.isIdentifier name.node = true := by
  intro name member
  refine Language.isIdentifier_of_content said name.node ?_
  rw [content, ← List.map_append]
  exact List.mem_map_of_mem member

/-- So they are not empty. -/
theorem Program.name_ne_nil (said : document.content? = some program.content) :
    ∀ name ∈ program.names, name.node.toList ≠ [] := by
  intro name member empty
  have identifier := isIdentifier_of_mem_names said name member
  simp [Identifier.isIdentifier, empty, Identifier.isIdentifierText] at identifier

/-- Spans that are apart in each list are apart in all, since the lists lie within items of
different kinds. -/
theorem Program.spans_apart (placed : node.Placed source)
    (coversInputs : Covers node .inputs (program.inputs.map (·.span)))
    (coversOutputs : Covers node .outputs (program.outputs.map (·.span)))
    (coversRanges : Covers node .ranges [program.ranges.span])
    (coversRows : Covers node .row (program.rows.map (·.span)))
    (inputs : (program.inputs.map (·.span)).Pairwise Span.Apart)
    (outputs : (program.outputs.map (·.span)).Pairwise Span.Apart)
    (rows : (program.rows.map (·.span)).Pairwise Span.Apart) :
    program.spans.Pairwise Span.Apart := by
  refine List.pairwise_append.mpr ⟨inputs, List.pairwise_append.mpr
    ⟨outputs, List.pairwise_cons.mpr ⟨?_, rows⟩, ?_⟩, ?_⟩
  · exact coversRanges.apart placed coversRows (by decide) _ List.mem_cons_self
  · intro first member
    exact List.forall_mem_cons.mpr
      ⟨coversOutputs.apart placed coversRanges (by decide) _ member _ List.mem_cons_self,
        coversOutputs.apart placed coversRows (by decide) _ member⟩
  · intro first member
    exact List.forall_mem_append.mpr
      ⟨coversInputs.apart placed coversOutputs (by decide) _ member, List.forall_mem_cons.mpr
        ⟨coversInputs.apart placed coversRanges (by decide) _ member _ List.mem_cons_self,
          coversInputs.apart placed coversRows (by decide) _ member⟩⟩

/-- A program that was read from a node over the whole source has faithful spans. -/
theorem Program.ReadFrom.faithful (readFrom : program.ReadFrom node) (placed : node.Placed source)
    (whole : node.span = ⟨0, utf8Length source⟩) (said : document.content? = some program.content) :
    program.Faithful source := by
  have nonempty := Program.name_ne_nil said
  obtain ⟨inputs, inputsAscend, coversInputs⟩ := names_placed placed readFrom.inputs
    fun name member => nonempty name (List.mem_append_left _ member)
  obtain ⟨outputs, outputsAscend, coversOutputs⟩ := names_placed placed readFrom.outputs
    fun name member => nonempty name (List.mem_append_right _ member)
  obtain ⟨ranges, coversRanges⟩ := ranges_placed placed readFrom.ranges
  have rows := readFrom.rows_placed placed
  have rowsAscend := readFrom.rows_before placed
  have coversRows := readFrom.covers_rows
  have sliced : ∀ span ∈ program.spans, ∃ text, Slices source span text := by
    refine List.forall_mem_append.mpr ⟨?_, List.forall_mem_append.mpr ⟨?_,
      List.forall_mem_cons.mpr ⟨ranges.imp fun _ spec => spec.1, ?_⟩⟩⟩
    · exact List.forall_mem_map.mpr fun name member => ⟨_, inputs name member⟩
    · exact List.forall_mem_map.mpr fun name member => ⟨_, outputs name member⟩
    · exact List.forall_mem_map.mpr fun row member => (rows row member).imp fun _ spec => spec.1
  have apart {list : List Span} (ascend : list.Pairwise Span.Before) :
      list.Pairwise Span.Apart := ascend.imp fun before => .inl before.2
  exact {
    whole := readFrom.span.trans whole
    names := List.forall_mem_append.mpr ⟨inputs, outputs⟩
    ranges, rows, inputsAscend, outputsAscend, rowsAscend
    boundaries := by
      refine List.forall_mem_cons.mpr ⟨?_, fun span member => ?_⟩
      · rw [readFrom.span, whole]
        exact ⟨Text.boundary_zero source, ⟨source, [], List.append_nil _, rfl⟩⟩
      · obtain ⟨text, slices⟩ := sliced span member
        exact ⟨slices.boundary_start, slices.boundary_stop⟩
    apart := Program.spans_apart placed coversInputs coversOutputs coversRanges coversRows
      (apart inputsAscend) (apart outputsAscend) (apart rowsAscend) }

/-- The spans of a program that is read of a source are faithful. The program is the whole source.
Each name is what its span slices out, the ranges are sliced out from their word to their
semicolon, and each row from its bracket to its semicolon, as a text that is that row behind
any headers. All ends lie between characters, the spans of each list come one before the
other, and no two spans of names, ranges and rows have a byte in common. -/
theorem faithful_of_parse (parsed : parse source = .ok program) : program.Faithful source := by
  obtain ⟨node, document, placed, whole, readFrom, said⟩ := exists_origin parsed
  exact readFrom.faithful placed whole said

/-- A source with comments in which characters take several bytes, one of them inside a
fraction. -/
def commentedSource : List Char :=
  "// ½ box\nrange = 1 -> 2;\ninput = [x];\noutput = [a];\n[1 /*½*/ / 2, .5];".toList

/-- What it is read as. -/
def commentedProgram : Program where
  span := ⟨0, 72⟩
  inputs := [⟨"x", ⟨35, 36⟩⟩]
  outputs := [⟨"a", ⟨49, 50⟩⟩]
  ranges := ⟨⟨1, 2⟩, ⟨10, 25⟩⟩
  rows := [⟨[.fraction 1 2, .decimal false 5 1], ⟨53, 72⟩⟩]

/-- Its spans, which count bytes and not characters, are faithful. -/
theorem commentedProgram_faithful : parse commentedSource = .ok commentedProgram
    ∧ commentedProgram.Faithful commentedSource := by
  have parsed : parse commentedSource = .ok commentedProgram :=
    Attempt.eq_ok_of_toOption (by decide +kernel)
  exact ⟨parsed, faithful_of_parse parsed⟩

end Source

end Nonlocal
