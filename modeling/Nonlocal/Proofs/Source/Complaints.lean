import Nonlocal.Proofs.Source.Flaws
import Nonlocal.Proofs.Source.Origins
import Nonlocal.Proofs.Tuple.Index

/-!
# The first complaint about a source

A source that matches the grammar is a row of items: headers, rows and the end. An item
offends if it repeats an earlier header, or if it has a flaw. Reading complains about the
first item that offends, and about a repeated header whatever is inside it. Only where no
item offends it looks for missing declarations.

Readers of numbers stop at the first flaw of what they read: this is kept when readers follow
each other. An item is read where no item before it has offended, and then the declarations
on record are those of the headers so far. This is kept by every further item.
-/

namespace Nonlocal.Source

open Nonlocal.Source.Language (Cell Digits Header Name)
open Text (utf8Length)

variable {source : List Char} {node item : Node} {items before after : List Node}
  {name : Section} {error : ParseError}

/-- The kind of the headers that make a declaration. -/
def Section.rule : Section → Rule
  | .input => .inputs
  | .output => .outputs
  | .range => .ranges

/-- One of the items is a header of the given kind. -/
def Declares (items : List Node) (name : Section) : Prop := ∃ item ∈ items, item.rule = name.rule

/-- An item is a header of the same kind as one before it. -/
def Repeats (before : List Node) (item : Node) : Prop :=
  ∃ name : Section, item.rule = name.rule ∧ Declares before name

/-- An item repeats a header before it, or has a number that cannot be used. -/
def Offends (before : List Node) (item : Node) : Prop :=
  Repeats before item ∨ ∃ flaw, item.Has flaw

/-- No item offends. -/
def Sound (items : List Node) : Prop :=
  ∀ before item after, items = before ++ item :: after → ¬ Offends before item

/-- What is wrong with items: the first that offends repeats a header or else has a first flaw,
or none offends and a declaration is the first that is missing. -/
inductive Complaint (items : List Node) : ParseError → Prop where
  | duplicate {before after : List Node} {item : Node} {name : Section}
      (here : items = before ++ item :: after) (sound : Sound before)
      (kind : item.rule = name.rule) (declared : Declares before name) :
      Complaint items (.duplicate name item.span)
  | number {before after : List Node} {item : Node} {flaw : Flaw}
      (here : items = before ++ item :: after) (sound : Sound before)
      (fresh : ¬ Repeats before item) (first : item.FirstFlaw flaw) : Complaint items flaw.error
  | missing {earlier later : List Section} {name : Section} (sound : Sound items)
      (order : [.input, .output, .range] = earlier ++ name :: later)
      (declared : ∀ other ∈ earlier, Declares items other) (absent : ¬ Declares items name) :
      Complaint items (.missingSection name)

section

variable {α β : Type}

/-- A reader stops at the first of some flaws, and has a value if there is none. -/
def Stops (result : Except ParseError α) : List Flaw → Prop
  | [] => ∃ value, result = .ok value
  | flaw :: _ => result = .error flaw.error

/-- A value that is read has no flaws. -/
theorem Stops.ok (value : α) : Stops (.ok value) [] := ⟨value, rfl⟩

/-- A second reader comes to its flaws if the first one has a value. -/
theorem Stops.bind {first : Except ParseError α} {next : α → Except ParseError β}
    {flaws more : List Flaw} (stops : Stops first flaws)
    (later : ∀ value, first = .ok value → Stops (next value) more) :
    Stops (first >>= next) (flaws ++ more) := by
  cases flaws with
  | nil =>
    obtain ⟨value, rfl⟩ := stops
    exact later value rfl
  | cons flaw flaws =>
    obtain rfl : first = _ := stops
    rfl

/-- What is made of a value has no further flaws. -/
theorem Stops.andThen {first : Except ParseError α} {flaws : List Flaw} (stops : Stops first flaws)
    (next : α → β) : Stops (first >>= fun value => .ok (next value)) flaws := by
  simpa using stops.bind fun value _ => .ok (next value)

/-- A reader that is used on each element of a list comes to the flaws of each in turn. -/
theorem Stops.mapM {read : β → Except ParseError α} {flaws : β → List Flaw} {elements : List β}
    (each : ∀ element ∈ elements, Stops (read element) (flaws element)) :
    Stops (elements.mapM read) (elements.flatMap flaws) := by
  induction elements with
  | nil => exact .ok []
  | cons element rest inductionHypothesis =>
    obtain ⟨first, others⟩ := List.forall_mem_cons.mp each
    rw [List.mapM_cons, List.flatMap_cons]
    exact first.bind fun value _ => (inductionHypothesis others).andThen (value :: ·)

end

/-- An integer is a word, or it is too large. -/
theorem readInteger_eq (node : Node) :
    readInteger node = if 2 ^ 64 ≤ Decimal.ofDigits node.text
      then .error (Flaw.error ⟨node, .tooLarge⟩) else .ok (Decimal.ofDigits node.text) := by
  rw [readInteger]
  split_ifs with large
  · have noWord : Word.check? (Decimal.ofDigits node.text) = none :=
      if_neg (Nat.not_lt.mpr large)
    rw [noWord]
    rfl
  · rw [Tuple.check?_of_lt (Nat.lt_of_not_le large)]

/-- The value of an integer is the number that its digits write. -/
theorem eq_of_readInteger {value : Nat} (read : readInteger node = .ok value) :
    value = Decimal.ofDigits node.text := by
  rw [readInteger_eq] at read
  split at read
  · cases read
  · exact (Except.ok.inj read).symm

section

variable (found : node.Found source)

include found

/-- An integer is read unless it is too large. -/
theorem stops_readInteger (isInteger : node.rule = .integer) :
    Stops (readInteger node) node.flaws := by
  rw [Node.flaws_of_leaf (found.matched.integer isInteger), Node.ownFlaws_of_integer isInteger,
    readInteger_eq]
  split
  · rfl
  · exact .ok _

/-- A fraction is read unless one of its integers is too large or the second is zero, for which
the cell is blamed. -/
theorem stops_readFraction {cell : Node} (isFraction : node.rule = .fraction)
    (span : node.span = cell.span) (text : node.text = cell.text) :
    Stops (readFraction cell node) node.flaws := by
  obtain ⟨numerator, denominator, parts, isNumerator, isDenominator, -⟩ :=
    found.matched.fraction isFraction
  have first := stops_readInteger (found.child (parts ▸ List.mem_cons_self)) isNumerator
  have second := stops_readInteger
    (found.child (parts ▸ List.mem_cons_of_mem _ List.mem_cons_self)) isDenominator
  rw [Node.flaws_eq, parts, Node.ownFlaws_of_fraction isFraction parts, readFraction, parts,
    List.flatMap_cons, List.flatMap_singleton, List.append_assoc]
  refine first.bind fun _ _ => second.bind fun value isValue => ?_
  obtain rfl := eq_of_readInteger isValue
  split
  · rw [Stops, Flaw.error, span, text]
  · exact .ok _

/-- A cell is read unless there is a flaw in it. -/
theorem stops_readCell (isCell : node.rule = .probability) : Stops (readCell node) node.flaws := by
  obtain ⟨value, parts, kind, span, text⟩ := found.matched.cell isCell
  have isFound := found.child (parts ▸ List.mem_cons_self)
  rw [Node.flaws_of_composed (by rw [isCell]; decide), parts,
    List.flatMap_singleton, readCell, parts]
  rcases kind with isFraction | isNumber
  · simp only [isFraction, if_true]
    exact stops_readFraction isFound isFraction span text
  · rw [Node.flaws_eq_nil (by rw [isNumber]; decide) (by simp [isFound.matched.number isNumber])]
    simp only [isNumber]
    exact .ok _

/-- A row is read unless there is a flaw in one of its cells. -/
theorem stops_readRow {cells : List Cell} (same : node.part = Language.rowPart cells) :
    Stops (readRow node) node.flaws := by
  have isRow : node.rule = .row := Node.rule_of_part same
  obtain ⟨-, -, inside⟩ := Node.part_eq_mk_iff.mp same
  have isCell : ∀ child ∈ node.children, child.rule = .probability := by
    intro child member
    obtain ⟨cell, -, isPart⟩ := List.mem_map.mp (inside ▸ List.mem_map_of_mem member)
    rw [Node.rule_of_part isPart.symm]
    cases cell <;> rfl
  have all : node.childrenOf .probability = node.children :=
    List.filter_eq_self.mpr fun child member => decide_eq_true (isCell child member)
  rw [Node.flaws_of_composed (by rw [isRow]; decide), readRow, all]
  exact (Stops.mapM fun child member => stops_readCell (found.child member)
    (isCell child member)).andThen _

/-- Ranges are read unless one of the two integers is too large. -/
theorem stops_readRanges {input output : Digits}
    (same : node.part = (Header.ranges input output).part) :
    Stops (readRanges node) node.flaws := by
  have isRanges : node.rule = .ranges := Node.rule_of_part same
  obtain ⟨-, -, inside⟩ := Node.part_eq_mk_iff.mp same
  obtain ⟨word, integers, parts, isWord, inside⟩ := List.map_eq_cons_iff.mp inside
  obtain ⟨first, others, rfl, isFirst, inside⟩ := List.map_eq_cons_iff.mp inside
  obtain ⟨second, none, rfl, isSecond, nothing⟩ := List.map_eq_cons_iff.mp inside
  obtain rfl := List.map_eq_nil_iff.mp nothing
  have firstRule : first.rule = .integer := Node.rule_of_part isFirst
  have secondRule : second.rule = .integer := Node.rule_of_part isSecond
  obtain ⟨wordRule, -, leaf⟩ := Node.part_eq_mk_iff.mp isWord
  have noFlaws : word.flaws = [] :=
    Node.flaws_eq_nil (by rw [wordRule]; decide) (by simp [List.map_eq_nil_iff.mp leaf])
  have integers : node.childrenOf .integer = [first, second] := by
    simp [Node.childrenOf, parts, wordRule, firstRule, secondRule]
  have each : ∀ integer ∈ [first, second], integer.Found source := fun integer member =>
    found.child (parts ▸ List.mem_cons_of_mem word member)
  rw [Node.flaws_of_composed (by rw [isRanges]; decide), parts,
    List.flatMap_cons, noFlaws, List.nil_append, List.flatMap_cons, List.flatMap_singleton,
    readRanges, integers]
  exact (stops_readInteger (each first (by simp)) firstRule).bind fun _ _ =>
    (stops_readInteger (each second (by simp)) secondRule).andThen _

end

/-- A list of names has no flaws. -/
theorem flaws_of_names {names : List Name} (same : node.part = Language.namesPart names) :
    node.flaws = [] := by
  have isNames : node.rule = .names := Node.rule_of_part same
  obtain ⟨-, -, inside⟩ := Node.part_eq_mk_iff.mp same
  refine Node.flaws_eq_nil (by rw [isNames]; decide) fun child member => ?_
  obtain ⟨name, -, isPart⟩ := List.mem_map.mp (inside ▸ List.mem_map_of_mem member)
  obtain ⟨isIdentifier, -, leaf⟩ := Node.part_eq_mk_iff.mp isPart.symm
  exact Node.flaws_eq_nil (by rw [isIdentifier]; decide) (by simp [List.map_eq_nil_iff.mp leaf])

/-- Names are always read. -/
theorem stops_readNames {rule wordRule : Rule} {names : List Name}
    (outer : rule ∉ [.integer, .fraction]) (word : wordRule ∉ [.integer, .fraction])
    (different : wordRule ≠ .names)
    (same : node.part = .mk rule [] [.mk wordRule [] [], Language.namesPart names]) :
    Stops (readNames node) node.flaws := by
  obtain ⟨isRule, -, inside⟩ := Node.part_eq_mk_iff.mp same
  have none : node.flaws = [] := by
    refine Node.flaws_eq_nil (isRule ▸ outer) fun child member => ?_
    have among := inside ▸ List.mem_map_of_mem (f := Node.part) member
    rcases List.mem_pair.mp among with isWord | isNames
    · obtain ⟨isWordRule, -, leaf⟩ := Node.part_eq_mk_iff.mp isWord
      exact Node.flaws_eq_nil (isWordRule ▸ word) (by simp [List.map_eq_nil_iff.mp leaf])
    · exact flaws_of_names isNames
  rw [none]
  obtain ⟨value, isValue, -⟩ :=
    Option.map_eq_some_iff.mp (Language.readNames_part different same)
  exact ⟨value, Attempt.eq_ok_of_toOption isValue⟩

/-- A node that has been found in a source as a header, a row or the end. -/
structure Node.IsItem (source : List Char) (item : Node) : Prop where
  found : item.Found source
  kind : (∃ header : Header, item.part = header.part)
    ∨ (∃ cells, item.part = Language.rowPart cells) ∨ item.part = .mk .endOfInput [] []

namespace Draft

variable {draft next : Draft}

/-- A declaration has been read. -/
def has (draft : Draft) : Section → Bool
  | .input => draft.inputs.isSome
  | .output => draft.outputs.isSome
  | .range => draft.ranges.isSome

/-- A declaration that has been read is not read again. -/
theorem readItem_of_has (kind : item.rule = name.rule) (has : draft.has name = true) :
    draft.readItem item = .error (.duplicate name item.span) := by
  cases name <;>
  · rw [Section.rule] at kind
    simp only [readItem, kind]
    exact if_pos has

/-- An item that does not repeat a declaration is read unless there is a flaw in it. -/
theorem stops_readItem (draft : Draft) (isItem : item.IsItem source)
    (fresh : ∀ name, item.rule = name.rule → draft.has name = false) :
    Stops (draft.readItem item) item.flaws := by
  obtain ⟨found, ⟨header, isHeader⟩ | ⟨cells, isRow⟩ | isEnd⟩ := isItem
  · have isRule := Node.rule_of_part isHeader
    cases header with
    | inputs names =>
      have none : draft.inputs.isSome = false := fresh .input isRule
      simp only [readItem, isRule, Header.part, Part.rule, none]
      exact (stops_readNames (by decide) (by decide) (by decide) isHeader).andThen _
    | outputs names =>
      have none : draft.outputs.isSome = false := fresh .output isRule
      simp only [readItem, isRule, Header.part, Part.rule, none]
      exact (stops_readNames (by decide) (by decide) (by decide) isHeader).andThen _
    | ranges input output =>
      have none : draft.ranges.isSome = false := fresh .range isRule
      simp only [readItem, isRule, Header.part, Part.rule, none]
      exact (stops_readRanges found isHeader).andThen _
  · have isRule : item.rule = .row := Node.rule_of_part isRow
    simp only [readItem, isRule]
    exact (stops_readRow found isRow).andThen _
  · obtain ⟨isRule, -, leaf⟩ := Node.part_eq_mk_iff.mp isEnd
    rw [Node.flaws_eq_nil (by rw [isRule]; decide) (by simp [List.map_eq_nil_iff.mp leaf])]
    simp only [readItem, isRule]
    exact .ok _

/-- An item that is read adds its declaration to those that have been read. -/
theorem has_readItem (read : draft.readItem item = .ok next) :
    next.has name = true ↔ draft.has name = true ∨ item.rule = name.rule := by
  rcases readItem_cases read with ⟨isRule, _, -, rfl⟩ | ⟨isRule, _, -, rfl⟩ | ⟨isRule, _, -, rfl⟩
    | ⟨isRule, _, -, rfl⟩ | ⟨others, rfl⟩
  iterate 4
    · rw [isRule]
      cases name <;> simp [has, Section.rule]
  · have different : item.rule ≠ name.rule := others name.rule (by cases name <;> decide)
    simp [different]

end Draft

/-- The first ones of sound items are sound. -/
theorem Sound.left (sound : Sound (before ++ after)) : Sound before := by
  rintro earlier item later rfl
  exact sound earlier item (later ++ after) (List.append_assoc earlier _ after)

/-- One more item offends, or all are sound together. -/
theorem sound_concat_iff : Sound (items ++ [item]) ↔ Sound items ∧ ¬ Offends items item := by
  constructor
  · exact fun sound => ⟨sound.left, sound items item [] rfl⟩
  · rintro ⟨sound, innocent⟩ before other after here
    rcases after.eq_nil_or_concat' with rfl | ⟨earlier, last, rfl⟩
    · obtain ⟨rfl, same⟩ := List.append_inj' here rfl
      obtain ⟨rfl, -⟩ := List.cons.inj same
      exact innocent
    · rw [← List.cons_append, ← List.append_assoc] at here
      obtain ⟨inItems, -⟩ := List.append_inj' here rfl
      exact sound before other earlier inItems

/-- If some item offends, one of them is the first. -/
theorem exists_first_offence (unsound : ¬ Sound items) :
    ∃ before item after, items = before ++ item :: after ∧ Sound before ∧ Offends before item := by
  induction items using List.reverseRecOn with
  | nil => exact absurd (fun before item after here => by simp at here) unsound
  | append_singleton items item inductionHypothesis =>
    by_cases sound : Sound items
    · rw [sound_concat_iff, not_and_not_right] at unsound
      exact ⟨items, item, [], rfl, sound, unsound sound⟩
    · obtain ⟨before, first, after, rfl, earlier, offends⟩ := inductionHypothesis sound
      exact ⟨before, first, after ++ [item], by simp, earlier, offends⟩

/-- Where some items have been read, reading goes on with the next. -/
theorem foldlM_of_read {draft : Draft} (read : before.foldlM Draft.readItem {} = .ok draft) :
    (before ++ item :: after).foldlM Draft.readItem {}
      = draft.readItem item >>= after.foldlM Draft.readItem := by
  rw [List.foldlM_append, read, ← List.foldlM_cons]
  rfl

/-- Declarations are made by the items so far or by one more. -/
theorem declares_concat_iff :
    Declares (items ++ [item]) name ↔ Declares items name ∨ item.rule = name.rule := by
  simp [Declares, or_and_right, exists_or]

section

variable (isItem : ∀ item ∈ items, item.IsItem source)

include isItem

/-- Sound items are read, and the declarations on record are theirs. -/
theorem exists_draft (sound : Sound items) :
    ∃ draft, items.foldlM Draft.readItem {} = .ok draft
      ∧ ∀ name, draft.has name = true ↔ Declares items name := by
  induction items using List.reverseRecOn with
  | nil => exact ⟨{}, rfl, fun name => by cases name <;> simp [Draft.has, Declares]⟩
  | append_singleton items item inductionHypothesis =>
    obtain ⟨earlier, innocent⟩ := sound_concat_iff.mp sound
    obtain ⟨draft, read, declared⟩ :=
      inductionHypothesis (fun other member => isItem other (List.mem_append_left _ member)) earlier
    have stops := Draft.stops_readItem draft
      (isItem item (List.mem_append_right _ List.mem_cons_self)) fun name kind =>
        Bool.eq_false_iff.mpr fun has => innocent (.inl ⟨name, kind, (declared name).mp has⟩)
    have noFlaws : item.flaws = [] := List.eq_nil_iff_forall_not_mem.mpr fun flaw member =>
      innocent (.inr ⟨flaw, Node.mem_flaws.mp member⟩)
    rw [noFlaws] at stops
    obtain ⟨next, readLast⟩ := stops
    refine ⟨next, ?_, fun name => ?_⟩
    · rw [foldlM_of_read read, readLast]
      rfl
    · rw [Draft.has_readItem readLast, declares_concat_iff, declared]

/-- A header that is repeated is not read. -/
theorem foldlM_of_repeated (here : items = before ++ item :: after) (sound : Sound before)
    (kind : item.rule = name.rule) (declared : Declares before name) :
    items.foldlM Draft.readItem {} = .error (.duplicate name item.span) := by
  obtain ⟨draft, read, has⟩ := exists_draft
    (fun other member => isItem other (here ▸ List.mem_append_left _ member)) sound
  rw [here, foldlM_of_read read, Draft.readItem_of_has kind ((has name).mpr declared)]
  rfl

/-- Another item is read up to its first flaw. -/
theorem foldlM_of_flawed {flaw : Flaw} (here : items = before ++ item :: after)
    (sound : Sound before) (fresh : ¬ Repeats before item) (first : item.FirstFlaw flaw) :
    items.foldlM Draft.readItem {} = .error flaw.error := by
  obtain ⟨draft, read, has⟩ := exists_draft
    (fun other member => isItem other (here ▸ List.mem_append_left _ member)) sound
  have inItems : item ∈ items := here ▸ List.mem_append_right _ List.mem_cons_self
  have stops := Draft.stops_readItem draft (isItem item inItems) fun name kind =>
    Bool.eq_false_iff.mpr fun isRead => fresh ⟨name, kind, (has name).mp isRead⟩
  obtain ⟨others, listed⟩ :=
    List.head?_eq_some_iff.mp ((isItem item inItems).found.head?_flaws.mpr first)
  rw [listed] at stops
  rw [here, foldlM_of_read read, stops]
  rfl

/-- Something is wrong with the items, or no item offends and no declaration is missing. -/
theorem complaint_or_complete :
    (∃ error, Complaint items error) ∨ Sound items ∧ ∀ name, Declares items name := by
  by_cases sound : Sound items
  · by_cases input : Declares items .input
    · by_cases output : Declares items .output
      · by_cases range : Declares items .range
        · exact .inr ⟨sound, fun name => by cases name <;> assumption⟩
        · have order : [.input, .output, .range] = [.input, .output] ++ Section.range :: [] := rfl
          exact .inl ⟨_, .missing sound order (by simp [input, output]) range⟩
      · have order : [.input, .output, .range] = [.input] ++ Section.output :: [.range] := rfl
        exact .inl ⟨_, .missing sound order (by simp [input]) output⟩
    · have order : [.input, .output, .range] = [] ++ Section.input :: [.output, .range] := rfl
      exact .inl ⟨_, .missing sound order (by simp) input⟩
  · obtain ⟨before, item, after, here, earlier, offends⟩ := exists_first_offence sound
    by_cases repeats : Repeats before item
    · obtain ⟨name, kind, declared⟩ := repeats
      exact .inl ⟨_, .duplicate here earlier kind declared⟩
    · obtain ⟨flaw, has⟩ := offends.resolve_left repeats
      have inItems : item ∈ items := here ▸ List.mem_append_right _ List.mem_cons_self
      obtain ⟨first, isFirst⟩ := (isItem item inItems).found.exists_firstFlaw has
      exact .inl ⟨_, .number here earlier repeats isFirst⟩

end

/-- A draft is refused for the first declaration that it lacks. -/
theorem Draft.program_of_missing {draft : Draft} {earlier later : List Section} (span : Span)
    (order : [.input, .output, .range] = earlier ++ name :: later)
    (declared : ∀ other ∈ earlier, draft.has other = true) (absent : draft.has name = false) :
    draft.program span = .error (.missingSection name) := by
  obtain ⟨inputs, outputs, ranges, rows⟩ := draft
  rcases earlier with _ | ⟨first, _ | ⟨second, _ | ⟨third, others⟩⟩⟩
  · obtain ⟨rfl, -⟩ := List.cons.inj order
    obtain rfl : inputs = none := by simpa [has] using absent
    rfl
  · obtain ⟨rfl, behind⟩ := List.cons.inj order
    obtain ⟨rfl, -⟩ := List.cons.inj behind
    obtain ⟨_, rfl⟩ := Option.isSome_iff_exists.mp (declared .input (by simp))
    obtain rfl : outputs = none := by simpa [has] using absent
    rfl
  · obtain ⟨rfl, behind⟩ := List.cons.inj order
    obtain ⟨rfl, last⟩ := List.cons.inj behind
    obtain ⟨rfl, -⟩ := List.cons.inj last
    obtain ⟨_, rfl⟩ := Option.isSome_iff_exists.mp (declared .input (by simp))
    obtain ⟨_, rfl⟩ := Option.isSome_iff_exists.mp (declared .output (by simp))
    obtain rfl : ranges = none := by simpa [has] using absent
    rfl
  · -- There are only three declarations.
    have count := congrArg List.length order
    simp at count

section

variable (isItem : ∀ item ∈ node.children, item.IsItem source)

include isItem

/-- What is wrong with the items inside a node is what reading it fails with. -/
theorem readProgram_of_complaint (complaint : Complaint node.children error) :
    readProgram node = .error error := by
  cases complaint with
  | duplicate here sound kind declared =>
    rw [readProgram, foldlM_of_repeated isItem here sound kind declared]
    rfl
  | number here sound fresh first =>
    rw [readProgram, foldlM_of_flawed isItem here sound fresh first]
    rfl
  | missing sound order declared absent =>
    obtain ⟨draft, read, has⟩ := exists_draft isItem sound
    rw [readProgram, read]
    exact Draft.program_of_missing node.span order (fun other among => (has other).mpr
      (declared other among)) (Bool.eq_false_iff.mpr fun isRead => absent ((has _).mp isRead))

/-- A node in which no item offends and no declaration is missing is read. -/
theorem exists_readProgram (sound : Sound node.children)
    (complete : ∀ name, Declares node.children name) :
    ∃ program, readProgram node = .ok program := by
  obtain ⟨draft, read, has⟩ := exists_draft isItem sound
  obtain ⟨inputs, isInputs⟩ := Option.isSome_iff_exists.mp ((has .input).mpr (complete .input))
  obtain ⟨outputs, isOutputs⟩ := Option.isSome_iff_exists.mp ((has .output).mpr (complete .output))
  obtain ⟨ranges, isRanges⟩ := Option.isSome_iff_exists.mp ((has .range).mpr (complete .range))
  refine Attempt.exists_bind read ⟨⟨node.span, inputs, outputs, ranges, draft.rows.reverse⟩, ?_⟩
  rw [Draft.program, isInputs, isOutputs, isRanges]

/-- Reading a node fails with exactly what is wrong with the items inside it. -/
theorem readProgram_eq_error_iff :
    readProgram node = .error error ↔ Complaint node.children error := by
  constructor
  · intro failed
    rcases complaint_or_complete isItem with ⟨other, complaint⟩ | ⟨sound, complete⟩
    · have alike := failed.symm.trans (readProgram_of_complaint isItem complaint)
      obtain rfl := Except.error.inj alike
      exact complaint
    · obtain ⟨program, read⟩ := exists_readProgram isItem sound complete
      cases failed.symm.trans read
  · exact readProgram_of_complaint isItem

/-- A node is read exactly if no item in it offends and no declaration is missing. -/
theorem exists_readProgram_iff :
    (∃ program, readProgram node = .ok program)
      ↔ Sound node.children ∧ ∀ name, Declares node.children name := by
  constructor
  · rintro ⟨program, read⟩
    rcases complaint_or_complete isItem with ⟨error, complaint⟩ | complete
    · cases read.symm.trans (readProgram_of_complaint isItem complaint)
    · exact complete
  · rintro ⟨sound, complete⟩
    exact exists_readProgram isItem sound complete

end

/-- The nodes inside a node that stands for a document are items. -/
theorem isItem_of_document {document : Language.Document} (found : node.Found source)
    (same : node.part = document.part) : ∀ item ∈ node.children, item.IsItem source :=
  fun _ member => ⟨found.child member, item_cases same member⟩

/-- A source that matches the grammar is one node over the whole source. Reading fails with an
error exactly if that is what is wrong with the items inside the node, and has a program exactly
if no item offends and no declaration is missing. -/
theorem parse_complains {nodes : List Node} {last : Cursor source}
    (isFound : (Grammar.program.runAll source).found? = some (nodes, last)) :
    ∃ node, nodes = [node] ∧ node.Placed source ∧ node.span = ⟨0, utf8Length source⟩
      ∧ (∀ error, parse source = .error error ↔ Complaint node.children error)
      ∧ ((∃ program, parse source = .ok program)
          ↔ Sound node.children ∧ ∀ name, Declares node.children name) := by
  obtain ⟨node, document, rfl, found, whole, same, read⟩ := exists_document isFound
  have isItem := isItem_of_document found same
  refine ⟨node, rfl, found.placed, whole, fun error => ?_, ?_⟩
  · rw [read]
    exact readProgram_eq_error_iff isItem
  · rw [read]
    exact exists_readProgram_iff isItem

/-- A source in which a header with a number that is too large repeats another, with a fraction
over zero behind it, and without inputs and outputs. -/
def repeatedRangeSource : List Char :=
  "range = 2 -> 2;\nrange = 2 -> 18446744073709551616;\n[1/0];".toList

/-- The complaint is that the header is repeated. -/
theorem repeatedRangeSource_complaint : ∃ node last,
    (Grammar.program.runAll repeatedRangeSource).found? = some ([node], last)
      ∧ parse repeatedRangeSource = .error (.duplicate .range ⟨16, 50⟩)
      ∧ Complaint node.children (.duplicate .range ⟨16, 50⟩) := by
  have failed : parse repeatedRangeSource = .error (.duplicate .range ⟨16, 50⟩) := by
    decide +kernel
  have matched : (Grammar.program.runAll repeatedRangeSource).found?.isSome = true := by
    decide +kernel
  obtain ⟨⟨nodes, last⟩, isFound⟩ := Option.isSome_iff_exists.mp matched
  obtain ⟨node, rfl, -, -, complains, -⟩ := parse_complains isFound
  exact ⟨node, last, isFound, failed, (complains _).mp failed⟩

end Nonlocal.Source
