import Nonlocal.Proofs.Source.Phrases

/-!
# Tokens

Names, digits and numerals are read without gaps in them, and as far as they go: a pattern
for tokens finds a token exactly where the character after it does not continue it. A
blank or a comment continues no token, so it does not matter whether a gap follows.
-/

namespace Nonlocal.Source.Language

open Grammar (settle)

variable {α : Type} {pattern : Pattern} {chars : α → List Char} {continues : Char → Bool}
  {text after : List Char} {found : List Part}

/-- No character that continues a token comes next. -/
def Ends (continues : Char → Bool) (char? : Option Char) : Prop :=
  ∀ char ∈ char?, continues char = false

/-- A character that does not continue a token ends it. -/
theorem ends_some {continues : Char → Bool} {char : Char} (ended : continues char = false) :
    Ends continues (some char) := by
  rintro other ⟨⟩
  exact ended

/-- A pattern finds tokens of some pieces, and nothing but them, and each of them where no
character continues it. -/
structure Lexes (pattern : Pattern) (chars : α → List Char) (continues : Char → Bool) : Prop where
  sound : ∀ {text after found}, pattern.find text = some (found, after) →
    found = [] ∧ ∃ piece, text = chars piece ++ after
  complete : ∀ piece {after}, Ends continues after.head? →
    pattern.find (chars piece ++ after) = some ([], after)

/-- Where a text settles without continuing a token, it does not begin with continuing it, since
no gap does. -/
theorem ends_of_settle (apart : Grammar.gapOpeners.all (fun char => !continues char) = true)
    (ended : Ends continues (settle text).head?) : Ends continues text.head? := by
  intro char atFront
  rcases Grammar.head?_cases text with same | ⟨other, atFrontToo, opens⟩
  · rw [← same] at ended
    exact ended char atFront
  · obtain rfl := Option.mem_unique atFront atFrontToo
    simpa using List.all_eq_true.mp apart char opens

/-- A part that is a token is read at settled places. -/
theorem Lexes.named (lexes : Lexes pattern chars continues) (rule : Rule)
    (unslashed : ∀ piece, chars piece ≠ ['/'])
    (apart : Grammar.gapOpeners.all (fun char => !continues char) = true) :
    Reads (.named rule pattern) (fun piece => [chars piece])
      (fun piece => [.mk rule (if rule.isToken then chars piece else []) []]) (Ends continues) where
  sound := by
    intro text after found isFound
    obtain ⟨children, foundToken, rfl⟩ := Pattern.find_named_eq_some_iff.mp isFound
    obtain ⟨rfl, piece, settled⟩ := lexes.sound foundToken
    refine ⟨piece, ?_, after, settled, fun same => (unslashed piece same).elim, rfl⟩
    simp [settled]
  complete := by
    rintro piece text rest ⟨after, settled, -, alike⟩ ended
    have endedHere : Ends continues after.head? := by
      apply ends_of_settle apart
      have alikeEnds := reaches_nil.mp alike
      rwa [alikeEnds]
    refine ⟨after, ?_, alike⟩
    rw [Pattern.find_named_eq_some_iff]
    refine ⟨[], ?_, by simp [settled]⟩
    rw [settled]
    exact lexes.complete piece endedHere

section

variable {test : Char → Bool}

/-- Characters of a class up to one that is none are taken. -/
theorem dropWhile_append_of_ends {taken : List Char} (all : ∀ char ∈ taken, test char = true)
    (ended : Ends test after.head?) : (taken ++ after).dropWhile test = after := by
  rw [List.dropWhile_append_of_pos all]
  cases after with
  | nil => rfl
  | cons char rest => simp [ended char rfl]

/-- What is left when all characters of a class are taken does not begin with one. -/
theorem ends_dropWhile (test : Char → Bool) (text : List Char) :
    Ends test (text.dropWhile test).head? := by
  intro char atFront
  have stopped := List.head?_dropWhile_not test text
  rwa [Option.mem_def.mp atFront] at stopped

/-- A text is made of the characters of a class that it begins with, and the rest. -/
theorem exists_takeWhile (test : Char → Bool) (text : List Char) :
    ∃ taken, text = taken ++ text.dropWhile test ∧ ∀ char ∈ taken, test char = true :=
  ⟨text.takeWhile test, List.takeWhile_append_dropWhile.symm,
    fun _ member => List.all_eq_true.mp List.all_takeWhile _ member⟩

/-- A text begins in only one way with all the characters of a class that it begins with. -/
theorem eq_of_taken {left right leftRest rightRest : List Char}
    (leftAll : ∀ char ∈ left, test char = true) (rightAll : ∀ char ∈ right, test char = true)
    (leftEnded : Ends test leftRest.head?) (rightEnded : Ends test rightRest.head?)
    (same : left ++ leftRest = right ++ rightRest) : left = right ∧ leftRest = rightRest := by
  have sameRest := congrArg (List.dropWhile test) same
  rw [dropWhile_append_of_ends leftAll leftEnded,
    dropWhile_append_of_ends rightAll rightEnded] at sameRest
  rw [sameRest] at same
  exact ⟨List.append_cancel_right same, sameRest⟩

/-- One character of a class and all those of another class after it. -/
theorem find_one_many_eq_some_iff {first : Char → Bool} :
    (Pattern.both (.one first) (.many (.one test))).find text = some (found, after)
      ↔ found = [] ∧ Ends test after.head? ∧ ∃ char taken, first char = true
        ∧ (∀ other ∈ taken, test other = true) ∧ text = char :: taken ++ after := by
  simp only [Pattern.find_both_eq_some_iff, Pattern.find_one_eq_some_iff, Grammar.find_many_one,
    Option.some.injEq, Prod.mk.injEq]
  constructor
  · rintro ⟨_, middle, _, ⟨rfl, char, passes, rfl⟩, ⟨rfl, rfl⟩, rfl⟩
    obtain ⟨taken, same, all⟩ := exists_takeWhile test middle
    exact ⟨rfl, ends_dropWhile test middle, char, taken, passes, all, by
      rw [List.cons_append, ← same]⟩
  · rintro ⟨rfl, ended, char, taken, passes, all, rfl⟩
    exact ⟨[], taken ++ after, [], ⟨rfl, char, passes, rfl⟩,
      ⟨rfl, dropWhile_append_of_ends all ended⟩, rfl⟩

end

/-- Digits begin with a digit. -/
theorem Digits.exists_head (digits : Digits) :
    ∃ char more, digits.chars = char :: more ∧ char.isDigit = true := by
  obtain ⟨char, more, same⟩ := List.exists_cons_of_ne_nil digits.nonempty
  exact ⟨char, more, same, digits.digits char (by rw [same]; exact List.mem_cons_self)⟩

/-- Digits are found where some come next, up to the last of them. -/
theorem find_digits_eq_some_iff :
    Grammar.digits.find text = some (found, after)
      ↔ found = [] ∧ Ends Char.isDigit after.head?
        ∧ ∃ digits : Digits, text = digits.chars ++ after := by
  rw [Grammar.digits, Grammar.digit, find_one_many_eq_some_iff]
  refine and_congr_right fun _ => and_congr_right fun _ => ?_
  constructor
  · rintro ⟨char, taken, passes, all, rfl⟩
    exact ⟨⟨char :: taken, List.cons_ne_nil _ _, List.forall_mem_cons.mpr ⟨passes, all⟩⟩, rfl⟩
  · rintro ⟨⟨chars, nonempty, all⟩, rfl⟩
    obtain ⟨char, taken, rfl⟩ := List.exists_cons_of_ne_nil nonempty
    obtain ⟨passes, later⟩ := List.forall_mem_cons.mp all
    exact ⟨char, taken, passes, later, rfl⟩

/-- No digits are found where none comes next. -/
theorem find_digits_eq_none (ended : Ends Char.isDigit text.head?) :
    Grammar.digits.find text = none := by
  rw [Pattern.find_eq_none_iff]
  intro found after isFound
  obtain ⟨-, -, digits, rfl⟩ := find_digits_eq_some_iff.mp isFound
  obtain ⟨char, more, same, isDigit⟩ := digits.exists_head
  rw [same] at ended
  rw [ended char rfl] at isDigit
  cases isDigit

/-- Digits are tokens. -/
theorem lexes_digits : Lexes Grammar.digits Digits.chars Char.isDigit where
  sound isFound := by
    obtain ⟨rfl, -, made⟩ := find_digits_eq_some_iff.mp isFound
    exact ⟨rfl, made⟩
  complete digits _ ended := find_digits_eq_some_iff.mpr ⟨rfl, ended, digits, rfl⟩

/-- A word that is not the beginning of a longer name. -/
theorem find_wholeWord_eq_some_iff {word : String} :
    (Grammar.wholeWord word).find text = some (found, after)
      ↔ found = [] ∧ Ends Identifier.isPart after.head? ∧ text = word.toList ++ after := by
  rw [Grammar.wholeWord, Grammar.namePart, Grammar.literal, Pattern.find_both_eq_some_iff]
  simp only [Pattern.find_exactly_eq_some_iff, Pattern.find_notBefore_eq_some_iff]
  have ends : (Pattern.one Identifier.isPart).find after = none
      ↔ Ends Identifier.isPart after.head? := by
    cases after with
    | nil => simp [Pattern.find, Ends]
    | cons char rest => simp [Pattern.find, Ends]
  constructor
  · rintro ⟨_, _, _, ⟨rfl, rfl⟩, ⟨absent, rfl, rfl⟩, rfl⟩
    exact ⟨rfl, ends.mp absent, rfl⟩
  · rintro ⟨rfl, ended, rfl⟩
    exact ⟨[], after, [], ⟨rfl, rfl⟩, ⟨ends.mpr ended, rfl, rfl⟩, rfl⟩

/-- A word is a token. -/
theorem lexes_wholeWord (word : String) :
    Lexes (Grammar.wholeWord word) (fun _ : Unit => word.toList) Identifier.isPart where
  sound isFound := by
    obtain ⟨rfl, -, rfl⟩ := find_wholeWord_eq_some_iff.mp isFound
    exact ⟨rfl, (), rfl⟩
  complete _ _ ended := find_wholeWord_eq_some_iff.mpr ⟨rfl, ended, rfl⟩

/-- Keywords do not match where none of them comes next as a whole word. -/
theorem find_keyword_eq_none_iff :
    Grammar.keyword.find text = none
      ↔ ∀ word ∈ ["input", "output", "range"], ∀ after, Ends Identifier.isPart after.head? →
        text ≠ word.toList ++ after := by
  have ofWord (word : String) : (Grammar.wholeWord word).find text = none
      ↔ ∀ after, Ends Identifier.isPart after.head? → text ≠ word.toList ++ after := by
    rw [Pattern.find_eq_none_iff]
    constructor
    · exact fun absent after ended same =>
        absent [] after (find_wholeWord_eq_some_iff.mpr ⟨rfl, ended, same⟩)
    · intro absent found after isFound
      obtain ⟨-, ended, same⟩ := find_wholeWord_eq_some_iff.mp isFound
      exact absent after ended same
  simp only [Grammar.keyword, Pattern.find_either_eq_none_iff, ofWord, List.forall_mem_cons,
    List.not_mem_nil, false_imp_iff, implies_true, and_true]

/-- The characters of an identifier are a first one and further ones. -/
theorem isIdentifier_ofList {char : Char} {taken : List Char} :
    Identifier.isIdentifier (String.ofList (char :: taken)) = true
      ↔ Identifier.isStart char = true ∧ ∀ other ∈ taken, Identifier.isPart other = true := by
  simp [Identifier.isIdentifier, Identifier.isIdentifierText]

/-- What begins a name may also go on with it. -/
theorem isPart_of_isStart {char : Char} (isStart : Identifier.isStart char = true) :
    Identifier.isPart char = true := by
  simp only [Identifier.isStart, Identifier.isPart, Char.isAlphanum, Bool.or_eq_true] at *
  tauto

/-- A name has a first character and further ones. -/
theorem Name.exists_chars (name : Name) :
    ∃ char taken, name.text.toList = char :: taken ∧ Identifier.isStart char = true
      ∧ ∀ other ∈ taken, Identifier.isPart other = true := by
  have identifier := name.identifier
  rw [← @String.ofList_toList name.text] at identifier
  cases same : name.text.toList with
  | nil =>
    rw [same] at identifier
    simp [Identifier.isIdentifier, Identifier.isIdentifierText] at identifier
  | cons char taken =>
    rw [same] at identifier
    exact ⟨char, taken, rfl, isIdentifier_ofList.mp identifier⟩

/-- Names are tokens. A text that begins with a name begins with a keyword only if the two are
the same, since both go as far as they can. -/
theorem lexes_name : Lexes (.both (.notBefore Grammar.keyword)
      (.both (.one Identifier.isStart) (.many (.one Identifier.isPart))))
    (fun name : Name => name.text.toList) Identifier.isPart where
  sound := by
    intro text after found isFound
    obtain ⟨_, _, _, noKeyword, isName, rfl⟩ := Pattern.find_both_eq_some_iff.mp isFound
    obtain ⟨absent, rfl, rfl⟩ := Pattern.find_notBefore_eq_some_iff.mp noKeyword
    obtain ⟨rfl, ended, char, taken, isStart, isPart, rfl⟩ := find_one_many_eq_some_iff.mp isName
    have free : String.ofList (char :: taken) ∉ ["input", "output", "range"] := by
      intro keyword
      apply find_keyword_eq_none_iff.mp absent _ keyword after ended
      rw [String.toList_ofList]
    exact ⟨rfl, ⟨_, isIdentifier_ofList.mpr ⟨isStart, isPart⟩, free⟩, by simp⟩
  complete := by
    intro name after ended
    obtain ⟨char, taken, same, isStart, isPart⟩ := name.exists_chars
    have nameParts : ∀ other ∈ name.text.toList, Identifier.isPart other = true := by
      rw [same]
      exact List.forall_mem_cons.mpr ⟨isPart_of_isStart isStart, isPart⟩
    have keywords : ∀ word ∈ ["input", "output", "range"],
        word.toList.all Identifier.isPart = true := by decide
    have absent : Grammar.keyword.find (name.text.toList ++ after) = none := by
      rw [find_keyword_eq_none_iff]
      intro word keyword rest endedWord sameText
      apply name.free
      have wordParts := List.all_eq_true.mp (keywords word keyword)
      have sameChars := (eq_of_taken nameParts wordParts ended endedWord sameText).1
      rwa [String.toList_inj.mp sameChars]
    refine Pattern.find_both_eq_some_iff.mpr ⟨[], name.text.toList ++ after, [],
      Pattern.find_notBefore_eq_some_iff.mpr ⟨absent, rfl, rfl⟩, ?_, rfl⟩
    exact find_one_many_eq_some_iff.mpr ⟨rfl, ended, char, taken, isStart, isPart, by rw [same]⟩

/-- A numeral without its sign. -/
def magnitude : Pattern :=
  .either (.both Grammar.digits (.maybe (.both (.exactly ['.']) (.many Grammar.digit))))
    (.both (.exactly ['.']) Grammar.digits)

/-- What continues a numeral: further digits, or a point. -/
def continuesNumeral (char : Char) : Bool := char.isDigit || char == '.'

/-- The characters of digits that may have a point in them. -/
def pointed (whole : List Char) (fraction? : Option (List Char)) : List Char :=
  whole ++ (fraction?.map ('.' :: ·)).getD []

/-- A numeral is made of its sign, if there is one, and of digits that may have a point in
them. -/
theorem Numeral.chars_eq (numeral : Numeral) : numeral.chars
    = (if numeral.negative then ['-'] else []) ++ pointed numeral.whole numeral.fraction? :=
  List.append_assoc _ _ _

/-- They begin with a digit or with the point. -/
theorem exists_head_pointed {whole : List Char} {fraction? : Option (List Char)}
    (digits : ∀ char ∈ whole ++ fraction?.getD [], char.isDigit = true)
    (nonempty : whole ++ fraction?.getD [] ≠ []) :
    ∃ char more, pointed whole fraction? = char :: more ∧ (char.isDigit = true ∨ char = '.') := by
  cases whole with
  | nil =>
    cases fraction? with
    | none => exact (nonempty rfl).elim
    | some fraction => exact ⟨'.', fraction, rfl, .inr rfl⟩
  | cons char more => exact ⟨char, _, rfl, .inl (digits char (by simp))⟩

/-- Any of them continues a numeral. -/
theorem continuesNumeral_of_mem_pointed {whole : List Char} {fraction? : Option (List Char)}
    (digits : ∀ char ∈ whole ++ fraction?.getD [], char.isDigit = true) {char : Char}
    (member : char ∈ pointed whole fraction?) : continuesNumeral char = true := by
  rw [continuesNumeral, Bool.or_eq_true, beq_iff_eq]
  cases fraction? with
  | none => exact .inl (digits char (by simpa [pointed] using member))
  | some fraction =>
    rcases (by simpa [pointed] using member : char ∈ whole ∨ char = '.' ∨ char ∈ fraction) with
      inWhole | isPoint | inFraction
    · exact .inl (digits char (List.mem_append_left _ inWhole))
    · exact .inr isPoint
    · exact .inl (digits char (List.mem_append_right _ inFraction))

/-- A point and the digits after it, of which there may be none. -/
theorem find_point_many {text : List Char} :
    (Pattern.both (.exactly ['.']) (.many Grammar.digit)).find ('.' :: text)
      = some ([], text.dropWhile Char.isDigit) :=
  Pattern.find_both_eq_some_iff.mpr ⟨[], text, [],
    Pattern.find_exactly_eq_some_iff.mpr ⟨rfl, rfl⟩, Grammar.find_many_one _ text, rfl⟩

/-- A magnitude is found in digits with at most one point. -/
theorem of_find_magnitude (isFound : magnitude.find text = some (found, after)) :
    found = [] ∧ ∃ whole fraction?, (∀ char ∈ whole ++ fraction?.getD [], char.isDigit = true)
      ∧ whole ++ fraction?.getD [] ≠ [] ∧ text = pointed whole fraction? ++ after := by
  rcases Pattern.find_either_eq_some_iff.mp isFound with foundWhole | ⟨-, foundPoint⟩
  · obtain ⟨_, middle, _, foundDigits, foundRest, rfl⟩ :=
      Pattern.find_both_eq_some_iff.mp foundWhole
    obtain ⟨rfl, -, digits, rfl⟩ := find_digits_eq_some_iff.mp foundDigits
    rcases Pattern.find_maybe_eq_some_iff.mp foundRest with foundFraction | ⟨-, rfl, rfl⟩
    · obtain ⟨_, later, _, point, many, rfl⟩ := Pattern.find_both_eq_some_iff.mp foundFraction
      obtain ⟨rfl, rfl⟩ := Pattern.find_exactly_eq_some_iff.mp point
      rw [Grammar.digit, Grammar.find_many_one, Option.some.injEq, Prod.mk.injEq] at many
      obtain ⟨rfl, rfl⟩ := many
      obtain ⟨taken, same, all⟩ := exists_takeWhile Char.isDigit later
      refine ⟨rfl, digits.chars, some taken, ?_, ?_, ?_⟩
      · intro char member
        rcases List.mem_append.mp member with inWhole | inFraction
        · exact digits.digits char inWhole
        · exact all char inFraction
      · simp [digits.nonempty]
      · generalize later.dropWhile Char.isDigit = rest at same
        simp [same, pointed]
    · exact ⟨rfl, digits.chars, none, by simpa using digits.digits, by simp [digits.nonempty],
        by simp [pointed]⟩
  · obtain ⟨_, middle, _, point, foundDigits, rfl⟩ :=
      Pattern.find_both_eq_some_iff.mp foundPoint
    obtain ⟨rfl, rfl⟩ := Pattern.find_exactly_eq_some_iff.mp point
    obtain ⟨rfl, -, digits, rfl⟩ := find_digits_eq_some_iff.mp foundDigits
    exact ⟨rfl, [], some digits.chars, by simpa using digits.digits, by simp [digits.nonempty],
      by simp [pointed]⟩

/-- Digits with at most one point are found to be a magnitude. -/
theorem find_magnitude {whole : List Char} {fraction? : Option (List Char)}
    (digits : ∀ char ∈ whole ++ fraction?.getD [], char.isDigit = true)
    (nonempty : whole ++ fraction?.getD [] ≠ []) (ended : Ends continuesNumeral after.head?) :
    magnitude.find (pointed whole fraction? ++ after) = some ([], after) := by
  have endedDigits : Ends Char.isDigit after.head? := by
    intro char atFront
    exact (Bool.or_eq_false_iff.mp (ended char atFront)).1
  rw [magnitude, Pattern.find_either_eq_some_iff]
  cases whole with
  | nil =>
    obtain ⟨fraction, rfl⟩ : ∃ fraction, fraction? = some fraction := by
      cases fraction? with
      | none => exact (nonempty rfl).elim
      | some fraction => exact ⟨fraction, rfl⟩
    refine .inr ⟨?_, Pattern.find_both_eq_some_iff.mpr ⟨[], fraction ++ after, [],
      Pattern.find_exactly_eq_some_iff.mpr ⟨rfl, rfl⟩, ?_, rfl⟩⟩
    · exact Pattern.find_both_eq_none (find_digits_eq_none (ends_some rfl))
    · exact find_digits_eq_some_iff.mpr ⟨rfl, endedDigits, ⟨fraction, nonempty, digits⟩, rfl⟩
  | cons char more =>
    have inWhole : ∀ other ∈ char :: more, other.isDigit = true := fun other member =>
      digits other (List.mem_append_left _ member)
    refine .inl (Pattern.find_both_eq_some_iff.mpr
      ⟨[], (fraction?.map ('.' :: ·)).getD [] ++ after, [], find_digits_eq_some_iff.mpr
        ⟨rfl, ?_, ⟨char :: more, List.cons_ne_nil _ _, inWhole⟩, by simp [pointed]⟩, ?_, rfl⟩)
    · cases fraction? with
      | none => exact endedDigits
      | some fraction =>
        rintro other ⟨⟩
        decide
    · rw [Pattern.find_maybe_eq_some_iff]
      cases fraction? with
      | none =>
        have noPoint : after.head? ≠ some '.' := fun point =>
          absurd (ended '.' point) (by decide)
        exact .inr ⟨Pattern.find_both_eq_none (Pattern.find_exactly_eq_none noPoint), rfl, rfl⟩
      | some fraction =>
        left
        have inFraction : ∀ other ∈ fraction, other.isDigit = true := fun other member =>
          digits other (List.mem_append_right _ member)
        have found := @find_point_many (fraction ++ after)
        rwa [dropWhile_append_of_ends inFraction endedDigits] at found

/-- Numerals are tokens. -/
theorem lexes_numeral : Lexes (.both (.maybe (.exactly ['-'])) magnitude) Numeral.chars
    continuesNumeral where
  sound := by
    intro text after found isFound
    obtain ⟨_, middle, _, sign, isMagnitude, rfl⟩ := Pattern.find_both_eq_some_iff.mp isFound
    obtain ⟨rfl, whole, fraction?, digits, nonempty, rfl⟩ := of_find_magnitude isMagnitude
    rcases Pattern.find_maybe_eq_some_iff.mp sign with minus | ⟨-, rfl, rfl⟩
    · obtain ⟨rfl, rfl⟩ := Pattern.find_exactly_eq_some_iff.mp minus
      exact ⟨rfl, ⟨true, whole, fraction?, digits, nonempty⟩, by simp [Numeral.chars_eq]⟩
    · exact ⟨rfl, ⟨false, whole, fraction?, digits, nonempty⟩, by simp [Numeral.chars_eq]⟩
  complete := by
    intro numeral after ended
    have isMagnitude := find_magnitude numeral.digits numeral.nonempty ended
    obtain ⟨negative, whole, fraction?, digits, nonempty⟩ := numeral
    refine Pattern.find_both_eq_some_iff.mpr ⟨[], pointed whole fraction? ++ after, [], ?_,
      isMagnitude, rfl⟩
    rw [Pattern.find_maybe_eq_some_iff]
    cases negative with
    | true =>
      exact .inl (Pattern.find_exactly_eq_some_iff.mpr ⟨rfl, by simp [Numeral.chars_eq]⟩)
    | false =>
      obtain ⟨char, more, isHead, visible⟩ := exists_head_pointed digits nonempty
      rw [Numeral.chars_eq, if_neg Bool.false_ne_true, List.nil_append]
      refine .inr ⟨Pattern.find_exactly_eq_none ?_, rfl, rfl⟩
      rw [isHead]
      rintro ⟨⟩
      exact absurd visible (by decide)

end Nonlocal.Source.Language
