import Nonlocal.Proofs.Source.Faithful
import Nonlocal.Proofs.Validity.Reports

/-!
# What a report points at

Every report of a validation is about a place of the program, and what stands at this place of
the source is what the report is about: the statement of the row, the declaration of the
ranges, the name. A repeated name is looked for among the outputs first and from behind, and
this is not the order of the text if the outputs are declared above the inputs. So the place
of a repeated name comes after another declaration of it, unless the outputs come first and
only one of them has the name: then it is the first place where the name stands.
-/

namespace Nonlocal.Source

open Text (Slices utf8Length)
open Validity (Reports defaultTolerance ensureUsable validate)

variable {α : Type} {source text : List Char} {program : Program} {span : Span}

namespace Program

/-- A row is written at a span. -/
def RowAt (program : Program) (row : Nat) (span : Span) (text : List Char) : Prop :=
  ∃ statement, program.rows[row]? = some statement ∧ statement.span = span
    ∧ ['['] <+: text ∧ [';'] <:+ text ∧ IsRow statement.node text

/-- The ranges are declared at a span. -/
def RangesAt (program : Program) (span : Span) (text : List Char) : Prop :=
  program.ranges.span = span ∧ "range".toList <+: text ∧ [';'] <:+ text

/-- The last name of an output is declared at a span, which is all of the source if there are no
outputs. -/
def OutputsEndAt (source : List Char) (program : Program) (span : Span) (text : List Char) :
    Prop :=
  match program.outputs.getLast? with
  | some last => last.span = span ∧ text = last.node.toList
  | none => span = ⟨0, utf8Length source⟩ ∧ text = source

/-- The same name is declared further up in the text. -/
def DeclaredAbove (program : Program) (name : Spanned String) : Prop :=
  ∃ earlier ∈ program.names, earlier.node = name.node ∧ earlier.span.Before name.span

/-- The inputs are declared above the outputs. -/
def InputsFirst (program : Program) : Prop :=
  ∀ input ∈ program.inputs, ∀ output ∈ program.outputs, input.span.Before output.span

/-- The outputs are declared above the inputs. -/
def OutputsFirst (program : Program) : Prop :=
  ∀ output ∈ program.outputs, ∀ input ∈ program.inputs, output.span.Before input.span

/-- A name was declared before: among the names, inputs first, the same one comes earlier. It
also comes earlier in the text, unless the outputs come first and no other output has the
name. -/
def Repeats (program : Program) (name : Spanned String) : Prop :=
  (∃ earlier, [earlier, name].Sublist program.names ∧ earlier.node = name.node)
    ∧ (program.DeclaredAbove name
      ↔ ¬(program.OutputsFirst ∧ (program.outputs.map (·.node)).count name.node = 1))

/-- What a report about a program points at. -/
def Points (source : List Char) (program : Program) (violation : Violation α) (span : Span)
    (text : List Char) : Prop :=
  match violation with
  | .cellValue row _ _ | .rowLength row _ _ | .rowSum row _ => program.RowAt row span text
  | .rowCount expected actual =>
    expected = Tuple.total program.ranges.node.input program.inputs.length
      ∧ actual = program.rows.length
      ∧ (expected < actual ∧ program.RowAt expected span text
        ∨ actual < expected ∧ program.RangesAt span text)
  | .emptyRange _ _ | .tooManyTuples _ _ _ => program.RangesAt span text
  | .unequalParties _ _ | .noParties => program.OutputsEndAt source span text
  | .naming name issue =>
    text = name.toList ∧ ⟨name, span⟩ ∈ program.names ∧ issue ≠ .notAnIdentifier
      ∧ (issue = .duplicate → program.Repeats ⟨name, span⟩)
  | .signalling party _ =>
    ∃ input, program.inputs[party]? = some input ∧ input.span = span ∧ text = input.node.toList
  | .lookup _ | .unusableTolerance _ => False

/-- The last one of a name in a list is found, and if there are several, one comes before it. -/
theorem exists_last {list : List (Spanned String)} {name : String}
    (declared : name ∈ list.map (·.node)) :
    ∃ span, (list.reverse.find? (·.node == name)).map (·.span) = some span ∧ ⟨name, span⟩ ∈ list
      ∧ (2 ≤ (list.map (·.node)).count name →
        ∃ earlier, [earlier, ⟨name, span⟩].Sublist list ∧ earlier.node = name) := by
  obtain ⟨one, member, isName⟩ := List.mem_map.mp declared
  cases found : list.reverse.find? (·.node == name) with
  | none =>
    have absent := List.find?_eq_none.mp found one (List.mem_reverse.mpr member)
    exact absurd (beq_iff_eq.mpr isName) absent
  | some last =>
    obtain ⟨same, later, before, reversed, others⟩ := List.find?_eq_some_iff_append.mp found
    obtain rfl := beq_iff_eq.mp same
    have whole : list = before.reverse ++ last :: later.reverse := by
      rw [← List.reverse_reverse list, reversed]
      simp
    refine ⟨last.span, rfl, by rw [whole]; simp, fun twice => ?_⟩
    have none : (later.reverse.map (·.node)).count last.node = 0 := by
      rw [List.count_eq_zero]
      intro again
      obtain ⟨other, among, equal⟩ := List.mem_map.mp again
      simpa [equal] using others other (List.mem_reverse.mp among)
    rw [whole, List.map_append, List.map_cons, List.count_append, List.count_cons_self, none]
      at twice
    have again : last.node ∈ before.reverse.map (·.node) := List.count_pos_iff.mp (by omega)
    obtain ⟨earlier, among, equal⟩ := List.mem_map.mp again
    refine ⟨earlier, ?_, equal⟩
    rw [whole]
    exact (List.singleton_sublist.mpr among).append
      (List.singleton_sublist.mpr List.mem_cons_self)

/-- A name that only one of a list has is had by one element. -/
theorem eq_of_count_eq_one {list : List (Spanned String)} {first second : Spanned String}
    (member : first ∈ list) (member' : second ∈ list) (same : first.node = second.node)
    (one : (list.map (·.node)).count second.node = 1) : first = second := by
  rw [List.count, List.countP_map, List.countP_eq_length_filter, List.length_eq_one_iff] at one
  obtain ⟨only, filtered⟩ := one
  have isOnly {name : Spanned String} (within : name ∈ list) (named : name.node = second.node) :
      name = only := by
    rw [← List.mem_singleton, ← filtered]
    exact List.mem_filter.mpr ⟨within, by simp [named]⟩
  rw [isOnly member same, ← isOnly member' rfl]

/-- The first declaration of a name is the one before which the name is not declared. -/
theorem nameSpan?_eq_some_iff {name : String} :
    program.nameSpan? name = some span
      ↔ ∃ before after, program.names = before ++ ⟨name, span⟩ :: after
        ∧ ∀ other ∈ before, other.node ≠ name := by
  simp only [nameSpan?, Option.map_eq_some_iff, List.find?_eq_some_iff_append]
  constructor
  · rintro ⟨first, ⟨same, before, after, whole, others⟩, rfl⟩
    obtain rfl := beq_iff_eq.mp same
    exact ⟨before, after, whole, fun other member => by simpa using others other member⟩
  · rintro ⟨before, after, whole, others⟩
    exact ⟨⟨name, span⟩, ⟨beq_self_eq_true name, before, after, whole,
      fun other member => by simpa using others other member⟩, rfl⟩

/-- A name is looked for among the outputs first. -/
theorem lastNameSpan?_eq (program : Program) (name : String) :
    program.lastNameSpan? name
      = ((program.outputs.reverse.find? (·.node == name)).map (·.span)).or
          ((program.inputs.reverse.find? (·.node == name)).map (·.span)) := by
  rw [lastNameSpan?, names, List.reverse_append, List.find?_append, Option.map_or]

/-- One of the two sides is declared above the other one. -/
theorem ReadFrom.inputsFirst_or_outputsFirst {node : Node} (readFrom : program.ReadFrom node)
    (placed : node.Placed source)
    (visible : ∀ name ∈ program.names, name.span.start < name.span.stop) :
    program.InputsFirst ∨ program.OutputsFirst := by
  obtain ⟨item, inside, isInputs, read⟩ := readFrom.inputs
  obtain ⟨item', inside', isOutputs, read'⟩ := readFrom.outputs
  have within := names_inside (placed.child inside) read
  have within' := names_inside (placed.child inside') read'
  rcases placed.apart inside inside' (by rw [isInputs, isOutputs]; decide) with above | below
  · left
    intro input member output member'
    exact ⟨visible input (List.mem_append_left _ member),
      (within input member).2.trans (above.trans (within' output member').1)⟩
  · right
    intro output member' input member
    exact ⟨visible output (List.mem_append_right _ member'),
      (within' output member').2.trans (below.trans (within input member).1)⟩

/-- Of two names in a list whose spans ascend the first comes before the other. -/
theorem before_of_sublist {list : List (Spanned String)} {earlier name : Spanned String}
    (ascend : (list.map (·.span)).Pairwise Span.Before) (ordered : [earlier, name].Sublist list) :
    earlier.span.Before name.span :=
  List.rel_of_pairwise_cons (ascend.sublist (ordered.map (·.span))) List.mem_cons_self

/-- A name repeats an earlier one of its side, where the spans ascend. -/
theorem repeats_of_ordered {side : List (Spanned String)} {earlier name : Spanned String}
    (part : side.Sublist program.names) (ascend : (side.map (·.span)).Pairwise Span.Before)
    (ordered : [earlier, name].Sublist side) (same : earlier.node = name.node)
    (several : (program.outputs.map (·.node)).count name.node ≠ 1) : program.Repeats name := by
  refine ⟨⟨earlier, ordered.trans part, same⟩, iff_of_true ?_ fun only => several only.2⟩
  exact ⟨earlier, part.subset (ordered.subset List.mem_cons_self), same,
    before_of_sublist ascend ordered⟩

/-- The only output with the name of an input repeats it, above or below. -/
theorem repeats_of_input {input output : Spanned String} (isInput : input ∈ program.inputs)
    (isOutput : output ∈ program.outputs) (same : input.node = output.node)
    (one : (program.outputs.map (·.node)).count output.node = 1)
    (sides : program.InputsFirst ∨ program.OutputsFirst) : program.Repeats output := by
  refine ⟨⟨input, (List.singleton_sublist.mpr isInput).append
    (List.singleton_sublist.mpr isOutput), same⟩, ?_⟩
  rw [and_iff_left one]
  constructor
  · rintro ⟨earlier, member, same', before⟩ outputsFirst
    rcases List.mem_append.mp member with inInputs | inOutputs
    · exact before.asymm (outputsFirst output isOutput earlier inInputs)
    · obtain rfl := eq_of_count_eq_one inOutputs isOutput same' one
      exact before.asymm before
  · intro notFirst
    exact ⟨input, List.mem_append_left _ isInput, same,
      sides.resolve_right notFirst input isInput output isOutput⟩

namespace Faithful

variable (faithful : program.Faithful source)

include faithful

/-- A declared name has a last declaration, which repeats the name if it is declared twice. -/
theorem exists_lastNameSpan? {name : String} (declared : name ∈ program.names.map (·.node))
    (sides : program.InputsFirst ∨ program.OutputsFirst) :
    ∃ span, program.lastNameSpan? name = some span ∧ ⟨name, span⟩ ∈ program.names
      ∧ (2 ≤ (program.names.map (·.node)).count name → program.Repeats ⟨name, span⟩) := by
  rw [Program.names, List.map_append, List.mem_append] at declared
  rw [Program.names, List.map_append, List.count_append]
  by_cases isOutput : name ∈ program.outputs.map (·.node)
  · obtain ⟨span, found, member, repeated⟩ := exists_last isOutput
    refine ⟨span, by rw [lastNameSpan?_eq, found]; rfl, List.mem_append_right _ member, ?_⟩
    intro twice
    by_cases again : 2 ≤ (program.outputs.map (·.node)).count name
    · obtain ⟨earlier, ordered, same⟩ := repeated again
      exact repeats_of_ordered (List.sublist_append_right _ _) faithful.outputsAscend ordered same
        (Nat.ne_of_gt again)
    · have some := List.count_pos_iff.mpr isOutput
      have one : (program.outputs.map (·.node)).count name = 1 := by omega
      have isInput : name ∈ program.inputs.map (·.node) := List.count_pos_iff.mp (by omega)
      obtain ⟨input, among, same⟩ := List.mem_map.mp isInput
      exact repeats_of_input among member same one sides
  · obtain ⟨span, found, member, repeated⟩ := exists_last (declared.resolve_right isOutput)
    have absent := List.count_eq_zero.mpr isOutput
    have missing : program.outputs.reverse.find? (·.node == name) = none :=
      List.find?_eq_none.mpr fun output member isName => isOutput
        (List.mem_map.mpr ⟨output, List.mem_reverse.mp member, beq_iff_eq.mp isName⟩)
    refine ⟨span, by rw [lastNameSpan?_eq, missing, found]; rfl, List.mem_append_left _ member, ?_⟩
    intro twice
    rw [absent] at twice
    obtain ⟨earlier, ordered, same⟩ := repeated twice
    exact repeats_of_ordered (List.sublist_append_left _ _) faithful.inputsAscend ordered same
      (by rw [absent]; exact Nat.zero_ne_one)

/-- A row is written at the span that is kept for it. -/
theorem exists_rowAt {row : Nat} (within : row < program.rows.length) :
    ∃ span text, program.rowSpan? row = some span ∧ Slices source span text
      ∧ program.RowAt row span text := by
  have isRow := List.getElem?_eq_getElem within
  obtain ⟨text, slices, begins, closes, same⟩ := faithful.rows _ (List.getElem_mem within)
  exact ⟨_, text, by rw [rowSpan?, isRow]; rfl, slices, _, isRow, rfl, begins, closes, same⟩

/-- The ranges are declared at theirs. -/
theorem exists_rangesAt :
    ∃ text, Slices source program.ranges.span text
      ∧ program.RangesAt program.ranges.span text := by
  obtain ⟨text, slices, begins, closes⟩ := faithful.ranges
  exact ⟨text, slices, rfl, begins, closes⟩

/-- The names of outputs end somewhere. -/
theorem exists_outputsEndAt :
    ∃ span text, (program.outputs.getLast?.map (·.span)).or (some program.span) = some span
      ∧ Slices source span text ∧ program.OutputsEndAt source span text := by
  cases ended : program.outputs.getLast? with
  | none =>
    refine ⟨program.span, source, rfl, ?_, ?_⟩
    · rw [faithful.whole]
      exact ⟨[], [], List.append_nil source, rfl, rfl⟩
    · rw [OutputsEndAt, ended]
      exact ⟨faithful.whole, rfl⟩
  | some last =>
    have member : last ∈ program.outputs := List.mem_of_getLast? ended
    refine ⟨last.span, last.node.toList, rfl, ?_, ?_⟩
    · exact faithful.names last (List.mem_append_right _ member)
    · rw [OutputsEndAt, ended]
      exact ⟨rfl, rfl⟩

/-- A report about places of the box that a program describes points at what it is about, if all
names of the program are identifiers and one side is declared above the other one. -/
theorem exists_points [Div α] [Scalar α] {violation : Violation α}
    (identifiers : ∀ name ∈ program.names, Identifier.isIdentifier name.node = true)
    (sides : program.InputsFirst ∨ program.OutputsFirst)
    (reports : Reports program.toBox violation) :
    ∃ span text, violation.span? program = some span ∧ Slices source span text
      ∧ program.Points source violation span text := by
  cases reports with
  | cellValue within | rowLength within | rowSum within =>
    exact faithful.exists_rowAt (by simpa [toBox] using within)
  | emptyRange | tooManyTuples =>
    obtain ⟨text, slices, isRanges⟩ := faithful.exists_rangesAt
    exact ⟨_, text, rfl, slices, isRanges⟩
  | unequalParties | noParties => exact faithful.exists_outputsEndAt
  | rowCount differ =>
    have inputs : (program.toBox : Box α).inputs.length = program.inputs.length :=
      List.length_map _
    have rows : (program.toBox : Box α).matrix.length = program.rows.length := List.length_map _
    rw [inputs, rows] at differ ⊢
    rcases Nat.lt_or_gt_of_ne differ with fewer | more
    · obtain ⟨text, slices, isRanges⟩ := faithful.exists_rangesAt
      refine ⟨_, text, if_neg (Nat.not_lt.mpr (Nat.le_of_lt fewer)), slices, rfl, rfl, ?_⟩
      exact .inr ⟨fewer, isRanges⟩
    · obtain ⟨span, text, isSpan, slices, isRow⟩ := faithful.exists_rowAt more
      exact ⟨span, text, (if_pos more).trans isSpan, slices, rfl, rfl, .inl ⟨more, isRow⟩⟩
  | @naming name issue member has =>
    have names : (program.toBox : Box α).declared = program.names.map (·.node) :=
      List.map_append.symm
    rw [names] at member
    obtain ⟨span, isSpan, inNames, repeated⟩ := faithful.exists_lastNameSpan? member sides
    refine ⟨span, name.toList, isSpan, faithful.names _ inNames, rfl, inNames, ?_, ?_⟩
    · rintro rfl
      exact has ((Identifier.isIdentifier_iff name).mp (identifiers _ inNames))
    · rintro rfl
      exact repeated (by rwa [← names])
  | @signalling party signal present =>
    have within : party < program.inputs.length := by
      simpa [toBox, Box.partyCount] using present
    have isInput := List.getElem?_eq_getElem within
    have member : program.inputs[party] ∈ program.names :=
      List.mem_append_left _ (List.getElem_mem within)
    refine ⟨_, _, ?_, faithful.names _ member, _, isInput, rfl, rfl⟩
    rw [Violation.span?, isInput]
    rfl

end Faithful

end Program

/-- A validation that does not accept the box of a source ends with a report about a span of the
program. The span can be sliced out of the source, and what stands there is what the report is
about: the statement of the row, or the first surplus row; the declaration of the ranges,
also where rows are missing; the reported name; the name of the input of the party that
signals; the last name of an output, or the whole source where there is none. A name that is
reported as repeated is declared further up in the text, unless the outputs are declared above
the inputs and only one of them has the name. That a name is no identifier is never reported,
nor is a failed lookup. -/
theorem validate_points [Zero α] [One α] [Add α] [Sub α] [Div α] [LT α] [DecidableLT α] [LE α]
    [DecidableLE α] [Scalar α] {tolerance : α} {stop : Stop (Violation α)}
    (parsed : parse source = .ok program) (usable : ensureUsable tolerance = .ok ())
    (failed : validate program.toBox tolerance = .error stop) :
    ∃ violation span text, stop = .refused violation ∧ violation.span? program = some span
      ∧ Slices source span text ∧ program.Points source violation span text := by
  obtain ⟨node, document, placed, whole, readFrom, said⟩ := exists_origin parsed
  obtain ⟨violation, refused, reports⟩ := Validity.reports_of_validate usable failed
  have faithful := readFrom.faithful placed whole said
  have sides := readFrom.inputsFirst_or_outputsFirst placed fun name member =>
    (faithful.names name member).start_lt_stop (Program.name_ne_nil said name member)
  obtain ⟨span, text, pointed⟩ := faithful.exists_points
    (Program.isIdentifier_of_mem_names said) sides reports
  exact ⟨violation, span, text, refused, pointed⟩

/-- A source in which an output has the name of an input, behind a character of two bytes. -/
def repeatedSource : List Char :=
  "// ½\ninput = [x];\noutput = [x];\nrange = 1 -> 1;\n[1];".toList

/-- What it is read as. -/
def repeatedProgram : Program where
  span := ⟨0, 53⟩
  inputs := [⟨"x", ⟨15, 16⟩⟩]
  outputs := [⟨"x", ⟨29, 30⟩⟩]
  ranges := ⟨⟨1, 1⟩, ⟨33, 48⟩⟩
  rows := [⟨[.decimal false 1 0], ⟨49, 53⟩⟩]

/-- The report points at the name of the output, below that of the input. -/
theorem repeatedProgram_points :
    parse repeatedSource = .ok repeatedProgram
      ∧ validate (repeatedProgram.toBox : Box Float) defaultTolerance
          = .error (.refused (.naming "x" .duplicate))
      ∧ (Violation.naming "x" .duplicate : Violation Float).span? repeatedProgram
          = some ⟨29, 30⟩
      ∧ Slices repeatedSource ⟨29, 30⟩ "x".toList
      ∧ repeatedProgram.Repeats ⟨"x", ⟨29, 30⟩⟩
      ∧ repeatedProgram.DeclaredAbove ⟨"x", ⟨29, 30⟩⟩ := by
  have parsed : parse repeatedSource = .ok repeatedProgram :=
    Attempt.eq_ok_of_toOption (by decide +kernel)
  have usable : ensureUsable (defaultTolerance : Float) = .ok () :=
    Attempt.eq_ok_of_toOption (by decide +kernel)
  have failed : validate (repeatedProgram.toBox : Box Float) defaultTolerance
      = .error (.refused (.naming "x" .duplicate)) := by decide +kernel
  obtain ⟨violation, span, text, refused, isSpan, slices, points⟩ :=
    validate_points parsed usable failed
  obtain rfl := Stop.refused.inj refused
  have place : (Violation.naming "x" .duplicate : Violation Float).span? repeatedProgram
      = some ⟨29, 30⟩ := rfl
  obtain rfl := Option.some.inj (place.symm.trans isSpan)
  obtain ⟨rfl, -, -, repeats⟩ := points
  have inputsFirst : ¬repeatedProgram.OutputsFirst := fun outputsFirst =>
    absurd (outputsFirst _ List.mem_cons_self _ List.mem_cons_self).2 (by decide)
  exact ⟨parsed, failed, place, slices, repeats rfl,
    (repeats rfl).2.mpr fun only => inputsFirst only.1⟩

/-- A source in which the outputs are declared above the inputs and have a name in common. -/
def raisedSource : List Char :=
  "output = [x];\ninput = [x];\nrange = 1 -> 1;\n[1];".toList

/-- What it is read as. -/
def raisedProgram : Program where
  span := ⟨0, 47⟩
  inputs := [⟨"x", ⟨23, 24⟩⟩]
  outputs := [⟨"x", ⟨10, 11⟩⟩]
  ranges := ⟨⟨1, 1⟩, ⟨27, 42⟩⟩
  rows := [⟨[.decimal false 1 0], ⟨43, 47⟩⟩]

/-- The report points at the name of the output, where the name stands for the first time; it is
the input that repeats it. -/
theorem raisedProgram_not_declaredAbove :
    parse raisedSource = .ok raisedProgram
      ∧ validate (raisedProgram.toBox : Box Float) defaultTolerance
          = .error (.refused (.naming "x" .duplicate))
      ∧ (Violation.naming "x" .duplicate : Violation Float).span? raisedProgram = some ⟨10, 11⟩
      ∧ ¬raisedProgram.DeclaredAbove ⟨"x", ⟨10, 11⟩⟩
      ∧ raisedProgram.DeclaredAbove ⟨"x", ⟨23, 24⟩⟩ := by
  refine ⟨Attempt.eq_ok_of_toOption (by decide +kernel), by decide +kernel, rfl, ?_, ?_⟩
  · rintro ⟨earlier, member, -, before⟩
    have late : ∀ name ∈ raisedProgram.names, ¬name.span.stop ≤ 10 := by decide
    exact late earlier member before.2
  · exact ⟨⟨"x", ⟨10, 11⟩⟩, by decide, rfl, by decide, by decide⟩

end Nonlocal.Source
