import Nonlocal.Proofs.Source.Gaps

/-!
# Tokens at settled places

A text that lays tokens out is followed here from one settled place to the next: each token
stands where the text before it has settled. Only these places matter, so a text may be
replaced by any other that settles alike. For tokens at which no gap can begin this is
the same as laying them out with gaps between them.
-/

namespace Nonlocal.Source.Language

open Grammar (isBlank settle)

variable {text other rest middle token : List Char} {tokens : List (List Char)}

/-- Over the tokens a text comes to a rest: each token stands where the text has settled, and
at the end both texts settle alike. -/
def Reaches : List (List Char) → List Char → List Char → Prop
  | [], text, rest => settle text = settle rest
  | token :: tokens, text, rest => ∃ after, settle text = token ++ after
      ∧ (token = ['/'] → after.head? ≠ some '/') ∧ Reaches tokens after rest

/-- Over no tokens one comes to what settles alike. -/
theorem reaches_nil : Reaches [] text rest ↔ settle text = settle rest := Iff.rfl

/-- How a text begins does not matter beyond where it settles. -/
theorem Reaches.of_settle (reaches : Reaches tokens text rest)
    (alike : settle other = settle text) : Reaches tokens other rest := by
  cases tokens with
  | nil => exact alike.trans reaches
  | cons token tokens =>
    obtain ⟨after, settled, further⟩ := reaches
    exact ⟨after, alike.trans settled, further⟩

/-- Tokens are gone over one part after another. -/
theorem reaches_append {more : List (List Char)} :
    Reaches (tokens ++ more) text rest
      ↔ ∃ middle, Reaches tokens text middle ∧ Reaches more middle rest := by
  induction tokens generalizing text with
  | nil =>
    constructor
    · exact fun reaches => ⟨text, rfl, reaches⟩
    · rintro ⟨middle, alike, reaches⟩
      exact reaches.of_settle alike
  | cons token tokens inductionHypothesis =>
    constructor
    · rintro ⟨after, settled, slash, further⟩
      obtain ⟨middle, first, second⟩ := inductionHypothesis.mp further
      exact ⟨middle, ⟨after, settled, slash, first⟩, second⟩
    · rintro ⟨middle, ⟨after, settled, slash, first⟩, second⟩
      exact ⟨after, settled, slash, inductionHypothesis.mpr ⟨middle, first, second⟩⟩

/-- Nor does it matter at which of the texts that settle alike one comes to a rest. -/
theorem Reaches.to_settle (reaches : Reaches tokens text rest)
    (alike : settle rest = settle other) : Reaches tokens text other := by
  have both : Reaches (tokens ++ []) text other := reaches_append.mpr ⟨rest, reaches, alike⟩
  rwa [List.append_nil] at both

/-- The settled text begins with the first token. -/
theorem Reaches.head? {char : Char} (reaches : Reaches ((char :: token) :: tokens) text rest) :
    (settle text).head? = some char := by
  obtain ⟨after, settled, -⟩ := reaches
  rw [settled]
  rfl

/-- What is gone over so is laid out. -/
theorem laid_of_reaches (reaches : Reaches tokens text rest) : Laid tokens text (settle rest) := by
  induction tokens generalizing text with
  | nil =>
    have alike := reaches_nil.mp reaches
    exact .nil (alike ▸ Grammar.skips_settle text)
  | cons token tokens inductionHypothesis =>
    obtain ⟨after, settled, slash, further⟩ := reaches
    exact .cons (settled ▸ Grammar.skips_settle text) slash (inductionHypothesis further)

/-- A token at whose beginning no gap can begin, and that is no end of a comment. Only a slash
alone begins with a slash. -/
def Solid (token : List Char) : Prop :=
  ∃ char more, token = char :: more ∧ isBlank char = false ∧ char ≠ '*'
    ∧ (char = '/' → more = [])

/-- A gap does not begin with a star. -/
theorem head?_ne_star_of_skips (skips : Skips text rest) (noStar : rest.head? ≠ some '*') :
    text.head? ≠ some '*' := by
  cases skips with
  | nothing => exact noStar
  | blank blank _ =>
    rintro ⟨⟩
    cases blank
  | line | block | lastLine => simp

/-- Nor does a text that lays solid tokens out. -/
theorem Laid.head?_ne_star (laid : Laid tokens text rest)
    (solid : ∀ token ∈ tokens, Solid token) (noStar : rest.head? ≠ some '*') :
    text.head? ≠ some '*' := by
  cases laid with
  | nil gap => exact head?_ne_star_of_skips gap noStar
  | @cons token _ after _ tokens gap _ _ =>
    apply head?_ne_star_of_skips gap
    obtain ⟨char, more, rfl, -, different, -⟩ := solid _ List.mem_cons_self
    simpa using different

/-- Solid tokens that are laid out are gone over from one settled place to the next. -/
theorem Laid.reaches (laid : Laid tokens text rest) (solid : ∀ token ∈ tokens, Solid token)
    (noStar : rest.head? ≠ some '*') : Reaches tokens text rest := by
  induction laid with
  | nil gap => exact Grammar.settle_of_skips gap
  | @cons token text after rest tokens gap slash further inductionHypothesis =>
    obtain ⟨first, later⟩ := List.forall_mem_cons.mp solid
    obtain ⟨char, more, rfl, visible, -, alone⟩ := first
    refine ⟨after, ?_, slash, inductionHypothesis later noStar⟩
    rw [Grammar.settle_of_skips gap]
    apply Grammar.settle_of_solid visible
    rintro rfl next atFront
    obtain rfl := alone rfl
    have noSecond := slash rfl
    have noStarAfter := further.head?_ne_star later noStar
    constructor
    · rintro rfl
      exact noSecond atFront
    · rintro rfl
      exact noStarAfter atFront

end Nonlocal.Source.Language
