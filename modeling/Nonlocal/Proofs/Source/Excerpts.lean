import Nonlocal.Proofs.Source.Documents

/-!
# Excerpts of a source

Tokens that a text lays out up to a place are laid out by the text before that place alone:
what comes later neither opens a comment nor closes one before it. In turn texts that lay
tokens out may be put one after another. A row that the grammar finds somewhere in a source
is therefore a row by itself, from its bracket to its semicolon.
-/

namespace Nonlocal.Source.Language

open Grammar (settle)

variable {text middle rest left kept beyond : List Char} {tokens more : List (List Char)}

/-- Going over a gap leads to the end of the text. -/
theorem Skips.suffix (skips : Skips text rest) : rest <:+ text := by
  induction skips with
  | nothing => exact List.suffix_rfl
  | blank _ _ inductionHypothesis =>
    exact inductionHypothesis.trans (List.suffix_cons ..)
  | line _ _ inductionHypothesis =>
    exact inductionHypothesis.trans ((List.suffix_cons ..).trans (List.suffix_append ..))
  | block _ _ inductionHypothesis =>
    exact inductionHypothesis.trans
      ((List.suffix_cons ..).trans ((List.suffix_cons ..).trans (List.suffix_append ..)))
  | lastLine => exact List.nil_suffix

/-- Two gaps, one after the other, are a gap. -/
theorem Skips.trans (skips : Skips text middle) (further : Skips middle rest) :
    Skips text rest := by
  induction skips with
  | nothing => exact further
  | blank blank _ inductionHypothesis => exact .blank blank (inductionHypothesis further)
  | line oneLine _ inductionHypothesis => exact .line oneLine (inductionHypothesis further)
  | block unclosed _ inductionHypothesis => exact .block unclosed (inductionHypothesis further)
  | lastLine oneLine =>
    obtain rfl := List.suffix_nil.mp further.suffix
    exact .lastLine oneLine

/-- What comes after the place where a gap ends does not matter, if the gap ends before
something. -/
theorem Skips.of_append (skips : Skips (left ++ beyond) (kept ++ beyond)) (nonempty : kept ≠ []) :
    Skips left kept := by
  generalize whole : left ++ beyond = text at skips
  generalize ended : kept ++ beyond = rest at skips
  induction skips generalizing left with
  | nothing =>
    obtain rfl := List.append_cancel_right (whole.trans ended.symm)
    exact .nothing
  | @blank char text rest blank further inductionHypothesis =>
    subst ended
    obtain ⟨between, rfl⟩ := further.suffix
    obtain rfl : left = char :: (between ++ kept) :=
      List.append_cancel_right (whole.trans (by simp))
    exact .blank blank (inductionHypothesis (by simp) rfl)
  | @line body text rest oneLine further inductionHypothesis =>
    subst ended
    obtain ⟨between, rfl⟩ := further.suffix
    obtain rfl : left = '/' :: '/' :: body ++ '\n' :: (between ++ kept) :=
      List.append_cancel_right (whole.trans (by simp))
    exact .line oneLine (inductionHypothesis (by simp) rfl)
  | @block body text rest unclosed further inductionHypothesis =>
    subst ended
    obtain ⟨between, rfl⟩ := further.suffix
    obtain rfl : left = '/' :: '*' :: body ++ '*' :: '/' :: (between ++ kept) :=
      List.append_cancel_right (whole.trans (by simp))
    exact .block unclosed (inductionHypothesis (by simp) rfl)
  | lastLine =>
    exact (nonempty (List.append_eq_nil_iff.mp ended).1).elim

/-- The tokens lead to the end of the text. -/
theorem Laid.suffix (laid : Laid tokens text rest) : rest <:+ text := by
  induction laid with
  | nil gap => exact gap.suffix
  | cons gap _ _ inductionHypothesis =>
    exact inductionHypothesis.trans ((List.suffix_append ..).trans gap.suffix)

/-- Tokens are laid out one after another if they are so in two portions. -/
theorem Laid.append (laid : Laid tokens text middle) (further : Laid more middle rest) :
    Laid (tokens ++ more) text rest := by
  induction laid with
  | nil gap =>
    cases further with
    | nil later => exact .nil (gap.trans later)
    | cons later slash further => exact .cons (gap.trans later) slash further
  | cons gap slash _ inductionHypothesis => exact .cons gap slash (inductionHypothesis further)

/-- What comes after the place where the tokens end does not matter, if they end before
something. -/
theorem Laid.of_append (laid : Laid tokens (left ++ beyond) (kept ++ beyond))
    (nonempty : kept ≠ []) : Laid tokens left kept := by
  generalize whole : left ++ beyond = text at laid
  generalize ended : kept ++ beyond = rest at laid
  induction laid generalizing left with
  | nil gap =>
    subst whole ended
    exact .nil (gap.of_append nonempty)
  | @cons token text after rest tokens gap slash further inductionHypothesis =>
    subst whole ended
    obtain ⟨between, rfl⟩ := further.suffix
    have visible : between ++ kept ≠ [] := List.append_ne_nil_of_right_ne_nil _ nonempty
    have cut : between ++ (kept ++ beyond) = (between ++ kept) ++ beyond := by simp
    rw [cut, ← List.append_assoc] at gap
    rw [cut, List.head?_append_of_ne_nil _ visible] at slash
    exact .cons (gap.of_append (List.append_ne_nil_of_right_ne_nil _ visible)) slash
      (inductionHypothesis cut.symm rfl)

/-- A pattern that takes given characters first. -/
def Begins (pattern : Pattern) (expected : List Char) : Prop :=
  ∀ text parts after, pattern.find text = some (parts, after) →
    ∃ more, text = expected ++ (more ++ after)

/-- A pattern that takes given characters last. -/
def Closes (pattern : Pattern) (expected : List Char) : Prop :=
  ∀ text parts after, pattern.find text = some (parts, after) →
    ∃ before, text = before ++ (expected ++ after)

section

variable {first second body : Pattern} {expected : List Char}

/-- Given characters are taken first. -/
theorem begins_exactly (expected : List Char) : Begins (.exactly expected) expected := by
  intro text parts after found
  exact ⟨[], (Pattern.find_exactly_eq_some_iff.mp found).2⟩

/-- They are taken first if the first of two patterns does. -/
theorem Begins.both (begins : Begins first expected) (second : Pattern) :
    Begins (.both first second) expected := by
  intro text parts after found
  obtain ⟨_, middle, _, foundFirst, foundSecond, -⟩ := Pattern.find_both_eq_some_iff.mp found
  obtain ⟨more, rfl⟩ := begins _ _ _ foundFirst
  obtain ⟨taken, rfl⟩ := Pattern.find_suffix foundSecond
  exact ⟨more ++ taken, by rw [List.append_assoc]⟩

/-- They are taken first by a part if its body does so. -/
theorem Begins.named (begins : Begins body expected) (rule : Rule) :
    Begins (.named rule body) expected := by
  intro text parts after found
  obtain ⟨_, foundBody, -⟩ := Pattern.find_named_eq_some_iff.mp found
  exact begins _ _ _ foundBody

/-- Given characters are taken last. -/
theorem closes_exactly (expected : List Char) : Closes (.exactly expected) expected := by
  intro text parts after found
  exact ⟨[], (Pattern.find_exactly_eq_some_iff.mp found).2⟩

/-- They are taken last if the second of two patterns does. -/
theorem Closes.both (closes : Closes second expected) (first : Pattern) :
    Closes (.both first second) expected := by
  intro text parts after found
  obtain ⟨_, middle, _, foundFirst, foundSecond, -⟩ := Pattern.find_both_eq_some_iff.mp found
  obtain ⟨before, rfl⟩ := closes _ _ _ foundSecond
  obtain ⟨taken, rfl⟩ := Pattern.find_suffix foundFirst
  exact ⟨taken ++ before, by rw [List.append_assoc]⟩

/-- They are taken last if the last of several patterns does, with gaps between them. -/
theorem Closes.spaced {last : Pattern} (closes : Closes last expected) (patterns : List Pattern) :
    Closes (Grammar.spaced (patterns ++ [last])) expected := by
  induction patterns with
  | nil => exact closes
  | cons first rest inductionHypothesis =>
    cases rest with
    | nil => exact (closes.both _).both _
    | cons second others => exact (inductionHypothesis.both _).both _

/-- They are taken last by a part if its body does so. -/
theorem Closes.named (closes : Closes body expected) (rule : Rule) :
    Closes (.named rule body) expected := by
  intro text parts after found
  obtain ⟨_, foundBody, -⟩ := Pattern.find_named_eq_some_iff.mp found
  exact closes _ _ _ foundBody

end

/-- A row begins with a bracket. -/
theorem begins_row : Begins Grammar.row ['['] :=
  (((begins_exactly ['[']).both _).both _).named .row

/-- A row ends with a semicolon. -/
theorem closes_row : Closes Grammar.row [';'] :=
  ((closes_exactly [';']).spaced [Grammar.bracketed Grammar.probability]).named .row

/-- The ranges begin with their word. -/
theorem begins_ranges : Begins Grammar.ranges "range".toList :=
  ((((begins_exactly "range".toList).both _).named .rangeWord).both _).named .ranges

/-- The ranges end with a semicolon. -/
theorem closes_ranges : Closes Grammar.ranges [';'] :=
  ((closes_exactly [';']).spaced [.named .rangeWord (Grammar.wholeWord "range"),
    Grammar.literal "=", Grammar.integer, Grammar.literal "->", Grammar.integer]).named .ranges

/-- A row that is found is laid out from its beginning to its end. -/
theorem laid_of_find_row {after : List Char} {parts : List Part}
    (found : Grammar.row.find (text ++ after) = some (parts, after)) :
    ∃ cells, parts = [rowPart cells] ∧ Laid (rowTokens cells) text [] := by
  obtain ⟨children, inside, rfl⟩ := Pattern.find_named_eq_some_iff.mp found
  obtain ⟨items, middle, _, inBrackets, further, rfl⟩ := Pattern.find_both_eq_some_iff.mp inside
  obtain ⟨more, begins⟩ := begins_row _ _ _ found
  rw [find_both_gap] at further
  obtain ⟨rfl, closed⟩ := Pattern.find_exactly_eq_some_iff.mp further
  have settled : settle (text ++ after) = text ++ after := by
    rw [begins]
    exact Grammar.settle_of_solid rfl (by rintro ⟨⟩)
  have cells := reads_probability.bracketed opens_cell (by decide) (ends_some rfl) (ends_some rfl)
  rw [← settled] at inBrackets
  obtain ⟨cells, rfl, reaches⟩ := cells.sound inBrackets
  have laid := laid_of_reaches reaches
  rw [closed] at laid
  refine ⟨cells, by simp [rowPart, Rule.isToken, List.map_eq_flatMap], ?_⟩
  exact (laid.of_append (List.cons_ne_nil ';' [])).append
    (.cons .nothing (by rintro ⟨⟩) (.nil .nothing))

end Nonlocal.Source.Language
