import Nonlocal.Proofs.Source.Tokens

/-!
# What the rules of the grammar read

Each rule reads the pieces of documents that it is for. In a row the only rules that could
take each other's pieces are those for fractions and for numerals: a numeral is no
fraction, since digits before a slash are a whole token.
-/

namespace Nonlocal.Source.Language

open Grammar (settle)

/-- The part that digits are. -/
def Digits.part (digits : Digits) : Part := .mk .integer digits.chars []

/-- The part that a name is. -/
def Name.part (name : Name) : Part := .mk .identifier name.text.toList []

/-- The part that a numeral is. -/
def Numeral.part (numeral : Numeral) : Part := .mk .number numeral.chars []

/-- The part that a fraction is. -/
def fractionPart (numerator denominator : Digits) : Part :=
  .mk .fraction [] [numerator.part, denominator.part]

/-- The part that a cell is. -/
def Cell.part : Cell → Part
  | .decimal numeral => .mk .probability [] [numeral.part]
  | .quotient numerator denominator =>
    .mk .probability [] [fractionPart numerator denominator]

/-- The part that a list of names is. -/
def namesPart (names : List Name) : Part := .mk .names [] (names.map Name.part)

/-- The part that a header is. -/
def Header.part : Header → Part
  | .inputs names => .mk .inputs [] [.mk .inputWord [] [], namesPart names]
  | .outputs names => .mk .outputs [] [.mk .outputWord [] [], namesPart names]
  | .ranges input output => .mk .ranges [] [.mk .rangeWord [] [], input.part, output.part]

/-- The part that a row is. -/
def rowPart (cells : List Cell) : Part := .mk .row [] (cells.map Cell.part)

/-- A numeral begins with a digit, the point or the sign. -/
theorem Numeral.exists_head (numeral : Numeral) :
    ∃ char more, numeral.chars = char :: more
      ∧ (char.isDigit = true ∨ char = '.' ∨ char = '-') := by
  obtain ⟨negative, whole, fraction?, digits, nonempty⟩ := numeral
  obtain ⟨char, more, same, visible⟩ := exists_head_pointed digits nonempty
  cases negative with
  | true => exact ⟨'-', pointed whole fraction?, by simp [chars_eq], .inr (.inr rfl)⟩
  | false =>
    refine ⟨char, more, ?_, visible.imp_right .inl⟩
    rw [← same]
    simp [chars_eq]

/-- All characters of a numeral continue it, unless there is a sign. -/
theorem Numeral.continues_or_signed (numeral : Numeral) :
    (∀ char ∈ numeral.chars, continuesNumeral char = true)
      ∨ ∃ more, numeral.chars = '-' :: more := by
  obtain ⟨negative, whole, fraction?, digits, nonempty⟩ := numeral
  cases negative with
  | true => exact .inr ⟨pointed whole fraction?, by simp [chars_eq]⟩
  | false =>
    left
    intro char member
    exact continuesNumeral_of_mem_pointed digits (by simpa [chars_eq] using member)

/-- Integers are read. -/
theorem reads_integer : Reads Grammar.integer (fun digits : Digits => [digits.chars])
    (fun digits => [digits.part]) (Ends Char.isDigit) := by
  refine lexes_digits.named .integer ?_ rfl
  intro digits slash
  exact absurd (digits.digits '/' (by rw [slash]; exact List.mem_cons_self)) (by decide)

/-- Names are read. -/
theorem reads_name : Reads Grammar.identifier Name.tokens (fun name => [name.part])
    (Ends Identifier.isPart) := by
  refine lexes_name.named .identifier ?_ rfl
  intro name slash
  obtain ⟨char, taken, same, isStart, -⟩ := name.exists_chars
  rw [same] at slash
  obtain ⟨rfl, -⟩ := List.cons.inj slash
  exact absurd isStart (by decide)

/-- Numerals are read. -/
theorem reads_numeral : Reads Grammar.number (fun numeral : Numeral => [numeral.chars])
    (fun numeral => [numeral.part]) (Ends continuesNumeral) := by
  refine lexes_numeral.named .number ?_ rfl
  intro numeral slash
  obtain ⟨char, more, same, visible⟩ := numeral.exists_head
  rw [same] at slash
  obtain ⟨rfl, -⟩ := List.cons.inj slash
  exact absurd visible (by decide)

/-- The words that open headers are read. -/
theorem reads_word {rule : Rule} (composed : rule.isToken = false) {word : String}
    (unslashed : word.toList ≠ ['/']) :
    Reads (.named rule (Grammar.wholeWord word)) (fun _ : Unit => [word.toList])
      (fun _ => [.mk rule [] []]) (Ends Identifier.isPart) := by
  have reads := (lexes_wholeWord word).named rule (fun _ => unslashed) rfl
  simpa [composed] using reads

/-- Fractions are read. -/
theorem reads_fraction : Reads Grammar.fraction
    (fun pair : Digits × Digits => [pair.1.chars, ['/'], pair.2.chars])
    (fun pair => [fractionPart pair.1 pair.2]) (Ends Char.isDigit) := by
  have follows : ∀ (denominator : Digits) (text rest : List Char),
      Reaches [['/'], denominator.chars] text rest → Ends Char.isDigit (settle rest).head? →
      Ends Char.isDigit (settle text).head? := by
    intro denominator text rest reaches _
    rw [reaches.head?]
    rintro char ⟨⟩
    rfl
  exact (reads_integer.both (reads_integer.after ['/']) follows).named rfl

/-- What continues a cell: further digits, a point, or a slash after digits. -/
def continuesCell (char : Char) : Bool := continuesNumeral char || char == '/'

/-- Where a numeral stands there is no fraction. The digits of a fraction would be the whole
numeral, so that a slash came after it. -/
theorem find_fraction_eq_none {numeral : Numeral} {text rest : List Char}
    (reaches : Reaches [numeral.chars] text rest) (ended : Ends continuesCell (settle rest).head?) :
    Grammar.fraction.find (settle text) = none := by
  rw [Pattern.find_eq_none_iff]
  intro found after isFound
  obtain ⟨⟨numerator, denominator⟩, -, fraction⟩ := reads_fraction.sound isFound
  obtain ⟨middle, settled, -, slash⟩ := fraction
  have slashNext : (settle middle).head? = some '/' := slash.head?
  obtain ⟨later, settledToo, -, alike⟩ := reaches
  have alikeEnds := reaches_nil.mp alike
  rw [← alikeEnds] at ended
  have endedLater : Ends continuesNumeral later.head? := by
    apply ends_of_settle rfl
    exact fun char atFront => (Bool.or_eq_false_iff.mp (ended char atFront)).1
  have endedMiddle : Ends continuesNumeral middle.head? := by
    apply ends_of_settle rfl
    rw [slashNext]
    rintro char ⟨⟩
    rfl
  rw [settled] at settledToo
  have digitsContinue : ∀ char ∈ numerator.chars, continuesNumeral char = true := by
    intro char member
    rw [continuesNumeral, numerator.digits char member, Bool.true_or]
  rcases numeral.continues_or_signed with numeralContinues | ⟨more, signed⟩
  · obtain ⟨-, rfl⟩ :=
      eq_of_taken digitsContinue numeralContinues endedMiddle endedLater settledToo
    exact absurd (ended '/' slashNext) (by decide)
  · obtain ⟨char, others, same, isDigit⟩ := numerator.exists_head
    rw [same, signed] at settledToo
    obtain ⟨rfl, -⟩ := List.cons.inj settledToo
    exact absurd isDigit (by decide)

/-- Cells are read. -/
theorem reads_probability : Reads Grammar.probability Cell.tokens (fun cell => [cell.part])
    (Ends continuesCell) := by
  have narrow : ∀ char?, Ends continuesCell char? → Ends continuesNumeral char? :=
    fun char? ended char atFront => (Bool.or_eq_false_iff.mp (ended char atFront)).1
  have narrower : ∀ char?, Ends continuesCell char? → Ends Char.isDigit char? :=
    fun char? ended char atFront =>
      (Bool.or_eq_false_iff.mp (narrow char? ended char atFront)).1
  have alternatives := reads_fraction.either reads_numeral
    (fun _ _ _ => find_fraction_eq_none) narrower narrow
  refine (alternatives.named rfl).image
    (Sum.elim (fun pair => Cell.quotient pair.1 pair.2) Cell.decimal) ?_ ?_ ?_
  · rintro (numeral | ⟨numerator, denominator⟩)
    · exact ⟨.inr numeral, rfl⟩
    · exact ⟨.inl (numerator, denominator), rfl⟩
  · rintro (pair | numeral) <;> rfl
  · rintro (pair | numeral) <;> rfl

/-- Names begin as identifiers do. -/
theorem opens_name : Opens Name.tokens fun char => Identifier.isStart char = true := by
  intro name
  obtain ⟨char, taken, same, isStart, -⟩ := name.exists_chars
  exact ⟨char, taken, [], by rw [Name.tokens, same], isStart⟩

/-- Cells begin with a digit, the point or the sign. -/
theorem opens_cell :
    Opens Cell.tokens fun char => char.isDigit = true ∨ char = '.' ∨ char = '-' := by
  rintro (numeral | ⟨numerator, denominator⟩)
  · obtain ⟨char, more, same, visible⟩ := numeral.exists_head
    exact ⟨char, more, [], by rw [Cell.tokens, same], visible⟩
  · obtain ⟨char, more, same, isDigit⟩ := numerator.exists_head
    exact ⟨char, more, _, by rw [Cell.tokens, same], .inl isDigit⟩

/-- Lists of names are read. -/
theorem reads_names : Reads Grammar.names (fun names : List Name => listed (names.map Name.tokens))
    (fun names => [namesPart names]) (fun _ => True) := by
  have listedNames := reads_name.bracketed opens_name (by decide) (ends_some rfl) (ends_some rfl)
  exact (listedNames.named rfl).image (fun names => names) (fun names => ⟨names, rfl⟩)
    (fun _ => rfl) (fun names => by rw [namesPart, List.map_eq_flatMap])

/-- Rows are read. -/
theorem reads_row : Reads Grammar.row rowTokens (fun cells => [rowPart cells])
    (fun _ => True) := by
  have cells := reads_probability.bracketed opens_cell (by decide) (ends_some rfl) (ends_some rfl)
  exact ((cells.before ';' [] trivial).named rfl).image (fun cells => cells)
    (fun cells => ⟨cells, rfl⟩) (fun _ => rfl) (fun cells => by rw [rowPart, List.map_eq_flatMap])

variable {rule wordRule : Rule} {word : String}

/-- Declarations of names are read. -/
theorem reads_nameDeclaration (composed : rule.isToken = false)
    (composedWord : wordRule.isToken = false) (unslashed : word.toList ≠ ['/']) :
    Reads (.named rule (Grammar.spaced [.named wordRule (Grammar.wholeWord word),
        Grammar.literal "=", Grammar.names, Grammar.literal ";"]))
      (fun names : List Name => word.toList :: ['='] :: listed (names.map Name.tokens) ++ [[';']])
      (fun names => [.mk rule [] [.mk wordRule [] [], namesPart names]]) (fun _ => True) := by
  have further := (reads_names.before ';' [] trivial).after ['=']
  have whole := (reads_word composedWord unslashed).both further
    (fun names text rest reaches _ => by rw [reaches.head?]; exact ends_some rfl)
  exact (whole.named composed).image Prod.snd (fun names => ⟨((), names), rfl⟩) (fun _ => rfl)
    (fun _ => rfl)

/-- Declarations of ranges are read. -/
theorem reads_ranges : Reads Grammar.ranges
    (fun pair : Digits × Digits => (Header.ranges pair.1 pair.2).tokens)
    (fun pair => [(Header.ranges pair.1 pair.2).part]) (fun _ => True) := by
  have output := (reads_integer.before ';' [] (ends_some rfl)).after ['-', '>']
  have both := (reads_integer.both output
    (fun _ text rest reaches _ => by rw [reaches.head?]; exact ends_some rfl)).after ['=']
  have whole := (reads_word (by rfl : Rule.isToken .rangeWord = false)
    (by decide : "range".toList ≠ ['/'])).both both
    (fun _ text rest reaches _ => by rw [reaches.head?]; exact ends_some rfl)
  exact (whole.named rfl).image Prod.snd (fun pair => ⟨((), pair), rfl⟩) (fun _ => rfl)
    (fun _ => rfl)

/-- Headers begin as their words. -/
theorem opens_header :
    Opens Header.tokens fun char => char = 'i' ∨ char = 'o' ∨ char = 'r' := by
  rintro (names | names | ⟨input, output⟩)
  · exact ⟨'i', _, _, rfl, .inl rfl⟩
  · exact ⟨'o', _, _, rfl, .inr (.inl rfl)⟩
  · exact ⟨'r', _, _, rfl, .inr (.inr rfl)⟩

/-- Declarations are read. They begin differently. -/
theorem reads_declaration : Reads Grammar.declaration Header.tokens (fun header => [header.part])
    (fun _ => True) := by
  have inputs : Reads Grammar.inputs (fun names => (Header.inputs names).tokens)
      (fun names => [(Header.inputs names).part]) (fun _ => True) :=
    reads_nameDeclaration rfl rfl (by decide)
  have outputs : Reads Grammar.outputs (fun names => (Header.outputs names).tokens)
      (fun names => [(Header.outputs names).part]) (fun _ => True) :=
    reads_nameDeclaration rfl rfl (by decide)
  have opensInputs : Opens (fun names => (Header.inputs names).tokens) (· = 'i') :=
    fun _ => ⟨'i', _, _, rfl, rfl⟩
  have opensOutputs : Opens (fun names => (Header.outputs names).tokens) (· = 'o') :=
    fun _ => ⟨'o', _, _, rfl, rfl⟩
  have opensRanges : Opens (fun pair : Digits × Digits => (Header.ranges pair.1 pair.2).tokens)
      (· = 'r') :=
    fun _ => ⟨'r', _, _, rfl, rfl⟩
  have others := outputs.choice reads_ranges opensOutputs opensRanges (by rintro _ rfl; decide)
  have all := inputs.choice others opensInputs (opensOutputs.sum opensRanges)
    (by rintro _ (rfl | rfl) <;> decide)
  refine all.image (Sum.elim Header.inputs (Sum.elim Header.outputs fun pair =>
    Header.ranges pair.1 pair.2)) ?_ ?_ ?_
  · rintro (names | names | ⟨input, output⟩)
    · exact ⟨.inl names, rfl⟩
    · exact ⟨.inr (.inl names), rfl⟩
    · exact ⟨.inr (.inr (input, output)), rfl⟩
  · rintro (names | names | pair) <;> rfl
  · rintro (names | names | pair) <;> rfl

/-- A declaration takes characters. -/
theorem advances_declaration : Advances Grammar.declaration := by
  have ofWord (rule wordRule : Rule) (char : Char) (more : List Char) (further : Pattern) :
      Advances (.named rule (.both (.named wordRule
        (.both (.exactly (char :: more)) (.notBefore Grammar.namePart))) further)) :=
    ((((advances_exactly char more).both _).named wordRule).both further).named rule
  exact (ofWord _ _ _ _ _).either ((ofWord _ _ _ _ _).either (ofWord _ _ _ _ _))

/-- Rows begin with a bracket. -/
theorem opens_row : Opens rowTokens (· = '[') := by
  rintro (_ | ⟨first, rest⟩) <;> exact ⟨'[', _, _, rfl, rfl⟩

/-- A row takes characters. -/
theorem advances_row : Advances Grammar.row :=
  (((advances_exactly '[' []).both _).both _).named .row

/-- Declarations one after another are read. -/
theorem reads_headers : Reads (Grammar.manySpaced Grammar.declaration)
    (fun headers : List Header => headers.flatMap Header.tokens)
    (fun headers => headers.map Header.part)
    (fun char? => True ∧ ∀ char ∈ char?, ¬ (char = 'i' ∨ char = 'o' ∨ char = 'r')) :=
  (reads_declaration.manySpaced opens_header advances_declaration fun _ _ => trivial).image
    (fun headers => headers) (fun headers => ⟨headers, rfl⟩) (fun _ => rfl)
    (fun headers => by rw [List.map_eq_flatMap])

/-- Rows one after another are read. -/
theorem reads_rows : Reads (Grammar.manySpaced Grammar.row)
    (fun rows : List (List Cell) => rows.flatMap rowTokens) (fun rows => rows.map rowPart)
    (fun char? => True ∧ ∀ char ∈ char?, ¬ char = '[') :=
  (reads_row.manySpaced opens_row advances_row fun _ _ => trivial).image
    (fun rows => rows) (fun rows => ⟨rows, rfl⟩) (fun _ => rfl)
    (fun rows => by rw [List.map_eq_flatMap])

end Nonlocal.Source.Language
