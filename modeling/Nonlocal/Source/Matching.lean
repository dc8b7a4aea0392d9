import Nonlocal.Source.Pattern
import Nonlocal.Text.Utf8

/-!
# Matching a source

Matching a pattern yields the named parts that were found, as a tree, or nothing.
Either way it keeps a record of failures: the farthest place at which a named
part was expected in vain, and the parts that were expected there. When the
whole source does not match, that record is the error.

A part that fails only because a single part inside it failed at the same place
leaves the inner one on record; a part that had several failures inside it at
that place replaces them by itself.
-/

namespace Nonlocal.Source

open Text (utf8Length)

/-- A place in a source: what is left, and the number of bytes before it. -/
structure Cursor (source : List Char) where
  rest : List Char
  offset : Nat
  reached : ∃ passed, passed ++ rest = source ∧ utf8Length passed = offset

namespace Cursor

variable {source : List Char}

/-- The beginning of a source. -/
def start (source : List Char) : Cursor source := ⟨source, 0, [], rfl, rfl⟩

/-- No place lies beyond the end. -/
theorem offset_le (cursor : Cursor source) : cursor.offset ≤ utf8Length source := by
  obtain ⟨passed, whole, counted⟩ := cursor.reached
  have total := congrArg utf8Length whole
  rw [Text.utf8Length_append] at total
  omega

/-- The next character and the place after it. -/
def next? (cursor : Cursor source) : Option (Char × Cursor source) :=
  match left : cursor.rest with
  | [] => none
  | char :: rest => some (char, ⟨rest, cursor.offset + char.utf8Size, by
      obtain ⟨passed, whole, counted⟩ := cursor.reached
      refine ⟨passed ++ [char], ?_, ?_⟩
      · rw [← whole, left]
        simp
      · simp [counted]⟩)

/-- The place after the given characters, if they come next. -/
def skip? (cursor : Cursor source) : List Char → Option (Cursor source)
  | [] => some cursor
  | expected :: text =>
    match cursor.next? with
    | none => none
    | some (char, after) => if char = expected then after.skip? text else none

end Cursor

/-- The farthest place at which named parts were expected, and these parts in the
order of their failures. -/
structure Failures where
  offset : Nat
  rules : List Rule
  deriving DecidableEq, Repr

namespace Failures

/-- No failures yet. -/
def none : Failures := ⟨0, []⟩

/-- The number of parts on record for a place. -/
def countAt (failures : Failures) (offset : Nat) : Nat :=
  if failures.offset = offset then failures.rules.length else 0

/-- The record after a part failed at a place, given the records before and after its
body was tried. -/
def afterPart (before after : Failures) (rule : Rule) (offset : Nat) : Failures :=
  if after.countAt offset = before.countAt offset + 1 then after
  else if after.offset = offset then
    ⟨offset, after.rules.take (before.countAt offset) ++ [rule]⟩
  else if after.offset < offset then ⟨offset, [rule]⟩
  else after

end Failures

/-- A named part that was found: where it starts and stops, the source from its
start, and the parts inside it. -/
inductive Node where
  | mk (rule : Rule) (start stop : Nat) (onward : List Char) (children : List Node)

namespace Node

/-- What the part is. -/
def rule : Node → Rule
  | .mk rule .. => rule

/-- The first byte of the part. -/
def start : Node → Nat
  | .mk _ start .. => start

/-- The byte after the part. -/
def stop : Node → Nat
  | .mk _ _ stop .. => stop

/-- The parts directly inside the part. -/
def children : Node → List Node
  | .mk _ _ _ _ children => children

/-- The characters of the part. -/
def text : Node → List Char
  | .mk _ start stop onward _ => (Text.splitBytes (stop - start) onward).1

/-- The parts of one kind directly inside the part. -/
def childrenOf (node : Node) (rule : Rule) : List Node :=
  node.children.filter (·.rule = rule)

end Node

/-- How matching ends: the failures on record and, unless there is no match, the parts
that were found and the place after them. -/
structure Outcome (source : List Char) where
  failures : Failures
  found? : Option (List Node × Cursor source)

/-- A way to match from a place, with the failures on record so far. -/
abbrev Matcher (source : List Char) := Cursor source → Failures → Outcome source

variable {source : List Char}

/-- Matches as often as possible. The parts found so far are given match by match, the
last one first. A match that takes no character is the last one. -/
def iterate (body : Matcher source) (cursor : Cursor source) (failures : Failures)
    (found : List (List Node)) : Outcome source :=
  match body cursor failures with
  | ⟨failures, none⟩ => ⟨failures, some (found.reverse.flatten, cursor)⟩
  | ⟨failures, some (nodes, after)⟩ =>
    if _advanced : cursor.offset < after.offset then
      iterate body after failures (nodes :: found)
    else ⟨failures, some ((nodes :: found).reverse.flatten, after)⟩
termination_by utf8Length source - cursor.offset
decreasing_by
  have bounded := after.offset_le
  omega

/-- Matches a pattern from a place. -/
def Pattern.run : Pattern → Matcher source
  | .exactly text, cursor, failures => ⟨failures, (cursor.skip? text).map fun after => ([], after)⟩
  | .one test, cursor, failures =>
    match cursor.next? with
    | none => ⟨failures, none⟩
    | some (char, after) => ⟨failures, if test char then some ([], after) else none⟩
  | .finish, cursor, failures =>
    ⟨failures, if cursor.rest.isEmpty then some ([], cursor) else none⟩
  | .both first second, cursor, failures =>
    match first.run cursor failures with
    | ⟨failures, none⟩ => ⟨failures, none⟩
    | ⟨failures, some (nodes, middle)⟩ =>
      match second.run middle failures with
      | ⟨failures, none⟩ => ⟨failures, none⟩
      | ⟨failures, some (more, after)⟩ => ⟨failures, some (nodes ++ more, after)⟩
  | .either first second, cursor, failures =>
    match first.run cursor failures with
    | ⟨failures, none⟩ => second.run cursor failures
    | outcome => outcome
  | .many body, cursor, failures => iterate body.run cursor failures []
  | .maybe body, cursor, failures =>
    match body.run cursor failures with
    | ⟨failures, none⟩ => ⟨failures, some ([], cursor)⟩
    | outcome => outcome
  | .notBefore body, cursor, failures =>
    match body.run cursor failures with
    | ⟨failures, none⟩ => ⟨failures, some ([], cursor)⟩
    | ⟨failures, some _⟩ => ⟨failures, none⟩
  | .named rule body, cursor, before =>
    match body.run cursor before with
    | ⟨after, none⟩ => ⟨before.afterPart after rule cursor.offset, none⟩
    | ⟨after, some (children, last)⟩ =>
      ⟨after, some ([.mk rule cursor.offset last.offset cursor.rest children], last)⟩

/-- Matches a pattern from the beginning of a source. -/
def Pattern.runAll (pattern : Pattern) (source : List Char) : Outcome source :=
  pattern.run (Cursor.start source) Failures.none

end Nonlocal.Source
