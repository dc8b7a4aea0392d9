import Nonlocal.Proofs.Attempt
import Nonlocal.Proofs.Source.Documents
import Nonlocal.Source.Parse

/-!
# Reading parts

What is read of a part does not depend on where it stands: it is what its piece of the
document says. There is one law for each reader, about a node whose part is that of a
piece; a reader fails only where the piece says nothing.
-/

namespace Nonlocal.Source

/-- What a part is. -/
def Part.rule : Part → Rule
  | .mk rule _ _ => rule

namespace Node

/-- The part of a node tells its rule, its characters if it is a token, and the parts of the
nodes inside it. -/
theorem part_eq_mk_iff {node : Node} {rule : Rule} {chars : List Char} {children : List Part} :
    node.part = .mk rule chars children
      ↔ node.rule = rule ∧ (if rule.isToken then node.text else []) = chars
        ∧ node.children.map Node.part = children := by
  obtain ⟨nodeRule, start, stop, onward, inside⟩ := node
  rw [Node.part, Part.mk.injEq]
  constructor
  · rintro ⟨rfl, rfl, rfl⟩
    exact ⟨rfl, rfl, rfl⟩
  · rintro ⟨rfl, rfl, rfl⟩
    exact ⟨rfl, rfl, rfl⟩

/-- The characters of a token are those of its part. -/
theorem text_eq_of_part {node : Node} {rule : Rule} {chars : List Char} {children : List Part}
    (token : rule.isToken = true) (same : node.part = .mk rule chars children) :
    node.text = chars := by
  obtain ⟨-, text, -⟩ := part_eq_mk_iff.mp same
  rwa [if_pos token] at text

/-- A node is what its part is. -/
theorem rule_part (node : Node) : node.part.rule = node.rule := by
  obtain ⟨rule, start, stop, onward, inside⟩ := node
  rw [Node.part]
  rfl

/-- A node is what the part that it stands for is. -/
theorem rule_of_part {node : Node} {part : Part} (same : node.part = part) :
    node.rule = part.rule := by
  rw [← same, rule_part]

/-- The nodes of one kind inside a node have the parts of that kind. -/
theorem map_part_childrenOf (node : Node) (rule : Rule) :
    (node.childrenOf rule).map Node.part
      = (node.children.map Node.part).filter (·.rule = rule) := by
  rw [Node.childrenOf, List.filter_map]
  congr 1
  apply List.filter_congr
  intro child _
  simp [rule_part]

end Node

namespace Language

variable {node : Node} {rule : Rule}

/-- An integer is read if it is a word. -/
theorem readInteger_part {digits : Digits} (same : node.part = digits.part) :
    (readInteger node).toOption = digits.word? := by
  rw [readInteger, Node.text_eq_of_part rfl same, Digits.word?]
  cases Word.check? (Decimal.ofDigits digits.chars) <;> rfl

section

variable {whole : List Char} {fraction? : Option (List Char)}

/-- The digits before the point are all that come first. -/
theorem takeWhile_pointed (digits : ∀ char ∈ whole, char.isDigit = true) :
    (pointed whole fraction?).takeWhile Char.isDigit = whole := by
  rw [pointed, List.takeWhile_append_of_pos digits]
  cases fraction? <;> simp

/-- The digits after the point come after one more character. -/
theorem drop_dropWhile_pointed (digits : ∀ char ∈ whole, char.isDigit = true) :
    ((pointed whole fraction?).dropWhile Char.isDigit).drop 1 = fraction?.getD [] := by
  rw [pointed, List.dropWhile_append_of_pos digits]
  cases fraction? <;> simp

end

/-- The characters of a numeral tell its sign, its digits and the place of the point. -/
theorem decimalLiteral_chars (numeral : Numeral) :
    some (decimalLiteral numeral.chars) = (Cell.decimal numeral).literal? := by
  obtain ⟨negative, whole, fraction?, digits, nonempty⟩ := numeral
  have inWhole : ∀ char ∈ whole, char.isDigit = true := fun char member =>
    digits char (List.mem_append_left _ member)
  have magnitude : (if negative then '-' :: pointed whole fraction? else pointed whole fraction?)
      = (⟨negative, whole, fraction?, digits, nonempty⟩ : Numeral).chars := by
    cases negative <;> simp [Numeral.chars_eq]
  rw [← magnitude]
  cases negative with
  | true =>
    simp only [if_true, decimalLiteral, takeWhile_pointed inWhole, drop_dropWhile_pointed inWhole]
    rfl
  | false =>
    obtain ⟨char, more, isHead, visible⟩ := exists_head_pointed digits nonempty
    have unsigned : ∀ rest, pointed whole fraction? ≠ '-' :: rest := by
      rintro rest same
      rw [isHead] at same
      obtain ⟨rfl, -⟩ := List.cons.inj same
      exact absurd visible (by decide)
    rw [if_neg Bool.false_ne_true, decimalLiteral]
    · simp only [takeWhile_pointed inWhole, drop_dropWhile_pointed inWhole]
      rfl
    · exact unsigned

/-- A fraction is read if both numbers are words, and the second is not zero. -/
theorem readFraction_part {cell : Node} {numerator denominator : Digits}
    (same : node.part = fractionPart numerator denominator) :
    (readFraction cell node).toOption = (Cell.quotient numerator denominator).literal? := by
  obtain ⟨-, -, inside⟩ := Node.part_eq_mk_iff.mp same
  obtain ⟨first, others, found, isFirst, inside⟩ := List.map_eq_cons_iff.mp inside
  obtain ⟨second, none, rfl, isSecond, -⟩ := List.map_eq_cons_iff.mp inside
  simp only [readFraction, found, Attempt.toOption_bind, readInteger_part isFirst,
    readInteger_part isSecond, Cell.literal?, Option.bind_eq_bind]
  refine Option.bind_congr fun numerator _ => Option.bind_congr fun denominator _ => ?_
  split <;> rfl

/-- A cell is read as the literal that it writes. -/
theorem readCell_part {cell : Cell} (same : node.part = cell.part) :
    (readCell node).toOption = cell.literal? := by
  cases cell with
  | decimal numeral =>
    obtain ⟨-, -, inside⟩ := Node.part_eq_mk_iff.mp same
    obtain ⟨value, others, found, isValue, -⟩ := List.map_eq_cons_iff.mp inside
    obtain ⟨isNumber, -, -⟩ := Node.part_eq_mk_iff.mp isValue
    rw [← decimalLiteral_chars, readCell, found]
    simp [isNumber, Node.text_eq_of_part rfl isValue]
  | quotient numerator denominator =>
    obtain ⟨-, -, inside⟩ := Node.part_eq_mk_iff.mp same
    obtain ⟨value, others, found, isValue, -⟩ := List.map_eq_cons_iff.mp inside
    obtain ⟨isFraction, -, -⟩ := Node.part_eq_mk_iff.mp isValue
    rw [← @readFraction_part _ node _ _ isValue, readCell, found]
    simp [isFraction]

section

variable {α : Type} {part : α → Part} {pieces : List α} {nodes : List Node}

/-- Inside a node all of whose parts are of one kind, all are of that kind. -/
theorem map_part_childrenOf_eq {chars : List Char} {outer : Rule}
    (kind : ∀ piece ∈ pieces, (part piece).rule = rule)
    (same : node.part = .mk outer chars (pieces.map part)) :
    (node.childrenOf rule).map Node.part = pieces.map part := by
  obtain ⟨-, -, inside⟩ := Node.part_eq_mk_iff.mp same
  rw [Node.map_part_childrenOf, inside, List.filter_eq_self]
  simpa using kind

/-- What is read of each node from its part alone is read of all of them. -/
theorem map_of_parts {β : Type} {read : Node → β} {value : α → β}
    (agrees : ∀ {node piece}, node.part = part piece → read node = value piece)
    (same : nodes.map Node.part = pieces.map part) : nodes.map read = pieces.map value := by
  induction pieces generalizing nodes with
  | nil =>
    rw [List.map_nil, List.map_eq_nil_iff] at same
    rw [same]
    rfl
  | cons piece pieces inductionHypothesis =>
    obtain ⟨node, others, rfl, first, later⟩ := List.map_eq_cons_iff.mp same
    rw [List.map_cons, List.map_cons, agrees first, inductionHypothesis later]

/-- The same for what can fail. -/
theorem mapM_of_parts {ε β : Type} {read : Node → Except ε β} {value? : α → Option β}
    (agrees : ∀ {node piece}, node.part = part piece → (read node).toOption = value? piece)
    (same : nodes.map Node.part = pieces.map part) :
    (nodes.mapM read).toOption = pieces.mapM value? := by
  induction pieces generalizing nodes with
  | nil =>
    rw [List.map_nil, List.map_eq_nil_iff] at same
    rw [same]
    rfl
  | cons piece pieces inductionHypothesis =>
    obtain ⟨node, others, rfl, first, later⟩ := List.map_eq_cons_iff.mp same
    simp only [List.mapM_cons, Attempt.toOption_bind, agrees first, inductionHypothesis later]
    rfl

end

/-- The names of a declaration are read in their order. -/
theorem readNames_part {wordRule : Rule} (different : wordRule ≠ .names) {names : List Name}
    (same : node.part = .mk rule [] [.mk wordRule [] [], namesPart names]) :
    (readNames node).toOption.map (·.map Spanned.node) = some (names.map Name.text) := by
  obtain ⟨-, -, inside⟩ := Node.part_eq_mk_iff.mp same
  have lists := Node.map_part_childrenOf node .names
  rw [inside] at lists
  simp only [List.filter, Part.rule, different, namesPart, decide_false, decide_true] at lists
  obtain ⟨list, others, found, isNames, -⟩ := List.map_eq_cons_iff.mp lists
  have kind : ∀ name ∈ names, name.part.rule = .identifier := fun _ _ => rfl
  have nodes := map_part_childrenOf_eq kind isNames
  have texts : (list.childrenOf .identifier).map (fun name => String.ofList name.text)
      = names.map Name.text := by
    apply map_of_parts _ nodes
    intro node name same
    rw [Node.text_eq_of_part rfl same, String.ofList_toList]
  rw [readNames, found, ← texts]
  simp

/-- The ranges of a declaration are read if both are words. -/
theorem readRanges_part {input output : Digits}
    (same : node.part = (Header.ranges input output).part) :
    (readRanges node).toOption.map Spanned.node = ranges? input output := by
  obtain ⟨-, -, inside⟩ := Node.part_eq_mk_iff.mp same
  have integers := Node.map_part_childrenOf node .integer
  rw [inside] at integers
  obtain ⟨first, _, found, isFirst, others⟩ := List.map_eq_cons_iff.mp integers
  obtain ⟨second, _, rfl, isSecond, -⟩ := List.map_eq_cons_iff.mp others
  simp only [readRanges, found, Attempt.toOption_bind, readInteger_part isFirst,
    readInteger_part isSecond, ranges?]
  cases input.word? with
  | none => rfl
  | some input => cases output.word? <;> rfl

/-- A row is read as the literals that its cells write. -/
theorem readRow_part {cells : List Cell} (same : node.part = rowPart cells) :
    (readRow node).toOption.map Spanned.node = cells.mapM Cell.literal? := by
  have kind : ∀ cell ∈ cells, cell.part.rule = .probability := by
    rintro (numeral | ⟨numerator, denominator⟩) _ <;> rfl
  have nodes := map_part_childrenOf_eq kind same
  rw [readRow, Attempt.toOption_bind, mapM_of_parts readCell_part nodes]
  cases cells.mapM Cell.literal? <;> rfl

end Language

end Nonlocal.Source
