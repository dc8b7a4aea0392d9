import Nonlocal.Proofs.Source.Complaints

/-!
# The labels of parse errors

A source that matches the grammar is refused for something that stands in it: a declaration
that comes twice, or a number that cannot be used. The label is then the span of what is
refused and can be sliced out. A source that does not match is refused for the character at
the farthest failure, and the label reaches one byte further, whatever the character takes.
That the end of such a label lies between characters again is therefore not assumed; it does
so exactly if one byte makes up the character, or none is left.
-/

namespace Nonlocal.Source

open Text (Boundary Slices utf8Length)

variable {source : List Char} {error : ParseError}

/-- An error about what stands in the source: the label of a repeated declaration can be sliced
out, and that of a number is sliced out as the literal. -/
inductive Grounded (source : List Char) : ParseError → Prop where
  | missing {name : Section} : Grounded source (.missingSection name)
  | duplicate {name : Section} {span : Span} {text : List Char}
      (slices : Slices source span text) : Grounded source (.duplicate name span)
  | number {literal : List Char} {issue : NumberIssue} {span : Span}
      (slices : Slices source span literal) : Grounded source (.invalidNumber literal issue span)

/-- What is wrong with the items of a source stands in the source. -/
theorem Complaint.grounded {items : List Node} (isItem : ∀ item ∈ items, item.IsItem source)
    (complaint : Complaint items error) : Grounded source error := by
  cases complaint with
  | @duplicate before after item _ here =>
    have inItems : item ∈ items := here ▸ List.mem_append_right before List.mem_cons_self
    exact .duplicate (isItem item inItems).found.placed.slices
  | @number before after item flaw here _ _ first =>
    have inItems : item ∈ items := here ▸ List.mem_append_right before List.mem_cons_self
    obtain ⟨⟨contains, -⟩, -⟩ := first
    exact .number ((isItem item inItems).found.contains contains).1.placed.slices
  | missing => exact .missing

/-- A source is refused at a failure of the grammar, which is between characters, or for what
stands in it. -/
theorem parse_error_cases (failed : parse source = .error error) :
    (∃ failures : Failures, Boundary source failures.offset
        ∧ error = .ofFailures source failures) ∨ Grounded source error := by
  rcases parse_cases source with
    ⟨failures, boundary, same⟩ | ⟨node, document, found, -, same, read⟩
  · exact .inl ⟨failures, boundary, Except.error.inj (failed.symm.trans same)⟩
  · have isItem := isItem_of_document found same
    have complaint := (readProgram_eq_error_iff isItem).mp (read.symm.trans failed)
    exact .inr (complaint.grounded isItem)

/-- The end of the label of a failure is between characters exactly if the character at the
failure, if there is one, takes one byte. -/
theorem boundary_stop_ofFailures_iff {offset : Nat} (boundary : Boundary source offset) :
    Boundary source (min (offset + 1) (utf8Length source))
      ↔ ∀ before char after, before ++ char :: after = source → utf8Length before = offset →
          char.utf8Size = 1 := by
  obtain ⟨before, rest, whole, bytes⟩ := boundary
  have total : utf8Length source = offset + utf8Length rest := by
    rw [← whole, Text.utf8Length_append, bytes]
  cases rest with
  | nil =>
    have ended : min (offset + 1) (utf8Length source) = utf8Length source := by
      rw [Text.utf8Length_nil] at total
      omega
    rw [ended]
    refine ⟨fun _ before' char after same bytes' => ?_, fun _ =>
      ⟨source, [], List.append_nil source, rfl⟩⟩
    -- A character there would have bytes, which the whole source does not have.
    have larger := congrArg utf8Length same
    have positive := char.utf8Size_pos
    rw [Text.utf8Length_append, Text.utf8Length_cons, total, bytes', Text.utf8Length_nil] at larger
    omega
  | cons char after =>
    have positive := char.utf8Size_pos
    rw [Text.utf8Length_cons] at total
    rw [show min (offset + 1) (utf8Length source) = offset + 1 by omega, ← bytes,
      Text.boundary_succ_iff whole]
    constructor
    · intro single before' other after' same bytes'
      obtain rfl := Text.eq_of_utf8Length_eq (same.trans whole.symm) bytes'
      obtain ⟨rfl, -⟩ := List.cons.inj (List.append_cancel_left (same.trans whole.symm))
      exact single
    · exact fun single => single before char after whole rfl

/-- The label of a parse error begins between characters, does not end before it begins, and stays
inside the source. It can be sliced out of the source for every repeated declaration and for
every number that cannot be used, for which the slice is the literal and nothing else. For a
source that does not match it can be sliced out exactly if the character at its beginning, if
there is one, takes one byte. -/
theorem label_of_parse_error {label : Label} (failed : parse source = .error error)
    (labelled : error.label? = some label) :
    label.span.start ≤ label.span.stop ∧ label.span.stop ≤ utf8Length source
      ∧ Boundary source label.span.start
      ∧ (Boundary source label.span.stop ↔
          ((∃ message, error = .syntaxError message label.span) →
            ∀ before char after, before ++ char :: after = source →
              utf8Length before = label.span.start → char.utf8Size = 1))
      ∧ ∀ literal issue, error = .invalidNumber literal issue label.span →
          ∀ text, Slices source label.span text ↔ text = literal := by
  rcases parse_error_cases failed with ⟨failures, boundary, rfl⟩ | grounded
  · obtain rfl := Option.some.inj labelled
    have within := boundary.le
    refine ⟨Nat.le_min.mpr ⟨Nat.le_succ _, within⟩, Nat.min_le_right _ _, boundary, ?_, ?_⟩
    · rw [boundary_stop_ofFailures_iff boundary]
      exact ⟨fun single _ => single, fun single => single ⟨_, rfl⟩⟩
    · rintro literal issue ⟨⟩
  · cases grounded with
    | missing => cases labelled
    | duplicate slices =>
      obtain rfl := Option.some.inj labelled
      exact ⟨slices.start_le_stop, slices.boundary_stop.le, slices.boundary_start,
        ⟨by rintro - ⟨_, ⟨⟩⟩, fun _ => slices.boundary_stop⟩, by rintro _ _ ⟨⟩⟩
    | number slices =>
      obtain rfl := Option.some.inj labelled
      refine ⟨slices.start_le_stop, slices.boundary_stop.le, slices.boundary_start,
        ⟨by rintro - ⟨_, ⟨⟩⟩, fun _ => slices.boundary_stop⟩, ?_⟩
      rintro _ _ ⟨⟩ text
      exact ⟨fun others => others.unique slices, by rintro rfl; exact slices⟩

/-- A fraction with a zero below, behind a character of two bytes. -/
def zeroDenominatorSource : List Char := "// ½\n[1 / 0];".toList

/-- It is refused with the text of the fraction, which the label slices out. -/
theorem zeroDenominatorSource_label :
    parse zeroDenominatorSource
        = .error (.invalidNumber "1 / 0".toList .zeroDenominator ⟨7, 12⟩)
      ∧ Boundary zeroDenominatorSource 12
      ∧ Slices zeroDenominatorSource ⟨7, 12⟩ "1 / 0".toList := by
  have failed : parse zeroDenominatorSource
      = .error (.invalidNumber "1 / 0".toList .zeroDenominator ⟨7, 12⟩) := by decide +kernel
  obtain ⟨-, -, -, ends, literal⟩ := label_of_parse_error failed rfl
  exact ⟨failed, ends.mpr (by rintro ⟨_, ⟨⟩⟩), (literal _ _ rfl _).mpr rfl⟩

/-- A source that fails at a character of two bytes. -/
def accentedSource : List Char := "input = [é];".toList

/-- The end of its label is inside this character. -/
theorem accentedSource_label : ∃ message,
    parse accentedSource = .error (.syntaxError message ⟨9, 10⟩)
      ∧ ¬ Boundary accentedSource 10 := by
  have place : (match parse accentedSource with
      | .error (.syntaxError _ span) => some span
      | _ => none) = some ⟨9, 10⟩ := by decide +kernel
  split at place
  · next message span failed =>
    obtain rfl := Option.some.inj place
    have whole : "input = [".toList ++ 'é' :: "];".toList = accentedSource := by decide
    refine ⟨message, failed, fun boundary => ?_⟩
    exact absurd ((Text.boundary_succ_iff whole).mp boundary) (by decide)
  · cases place

end Nonlocal.Source
