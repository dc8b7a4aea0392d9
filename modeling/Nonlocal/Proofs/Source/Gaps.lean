import Mathlib.Data.List.Basic
import Nonlocal.Proofs.Source.Finding
import Nonlocal.Proofs.Source.Language

/-!
# Gaps

The grammar goes over a gap greedily, so a text settles at exactly one place. That place is
reached by a gap of the language, and every gap that begins where a text begins settles at
the same place: what a gap leaves does not matter any more once the rest has settled. Two
texts that settle alike are therefore read alike.
-/

namespace Nonlocal.Source

namespace Grammar

open Nonlocal.Source.Language

/-- One blank or one comment. -/
def gapPiece : Pattern := .either (.one isBlank) (.either lineComment blockComment)

/-- Where a text settles: what a gap of the grammar leaves of it. -/
def settle (text : List Char) : List Char := (sweep gapPiece.find text).2

/-- A gap leaves what the text settles at. -/
theorem find_gap (text : List Char) : gap.find text = some ([], settle text) := by
  have found : gap.find text = some (sweep gapPiece.find text) := rfl
  have silent : (sweep gapPiece.find text).1 = [] :=
    Pattern.eq_nil_of_isSilent (show gap.isSilent = true from rfl) found
  rw [found, settle, ← silent]

/-- A text at which no gap begins stays as it is. -/
theorem settle_of_none {text : List Char} (solid : gapPiece.find text = none) :
    settle text = text := by
  rw [settle, sweep_of_none solid]

/-- Going over a piece of a gap does not change where the text settles. -/
theorem settle_of_some {text after : List Char} (found : gapPiece.find text = some ([], after))
    (advanced : after.length < text.length) : settle text = settle after := by
  rw [settle, sweep_of_some found advanced, settle]

/-- As many characters of a class as there are. -/
theorem find_many_one (test : Char → Bool) (text : List Char) :
    (Pattern.many (.one test)).find text = some ([], text.dropWhile test) := by
  have swept : sweep (Pattern.one test).find text = ([], text.dropWhile test) := by
    induction text with
    | nil => exact sweep_of_none rfl
    | cons char rest inductionHypothesis =>
      by_cases passes : test char = true
      · have found : (Pattern.one test).find (char :: rest) = some ([], rest) := by
          simp [Pattern.find, passes]
        rw [sweep_of_some found (by simp), inductionHypothesis]
        simp [passes]
      · have ended : (Pattern.one test).find (char :: rest) = none := by
          simp [Pattern.find, passes]
        rw [sweep_of_none ended]
        simp [passes]
  rw [Pattern.find, swept]

/-- A character that does not close a comment. -/
def openCharacter : Pattern := .both (.notBefore (literal "*/")) (.one fun _ => true)

/-- It is any character but the first of an end. -/
theorem find_openCharacter {char : Char} {rest : List Char}
    (goesOn : ¬ ['*', '/'] <+: char :: rest) :
    openCharacter.find (char :: rest) = some ([], rest) := by
  have absent : (literal "*/").find (char :: rest) = none := by
    have no : (['*', '/'] : List Char).isPrefixOf (char :: rest) = false := by
      rw [← Bool.not_eq_true, List.isPrefixOf_iff_prefix]
      exact goesOn
    exact if_neg (by rw [show "*/".toList = ['*', '/'] from rfl, no]; simp)
  simp [openCharacter, Pattern.find, absent]

/-- What comes before the end of a comment is gone over up to that end, or up to the end of the
text. -/
theorem sweep_openCharacter (text : List Char) :
    ∃ body after, text = body ++ after ∧ ¬ ['*', '/'] <:+: body
      ∧ (after = [] ∨ ['*', '/'] <+: after)
      ∧ sweep openCharacter.find text = ([], after) := by
  induction text with
  | nil => exact ⟨[], [], rfl, by simp, .inl rfl, sweep_of_none rfl⟩
  | cons char rest inductionHypothesis =>
    by_cases closes : ['*', '/'] <+: char :: rest
    · obtain ⟨after, same⟩ := closes
      refine ⟨[], char :: rest, rfl, by simp, .inr ⟨after, same⟩, sweep_of_none ?_⟩
      rw [← same]
      rfl
    · obtain ⟨body, after, rfl, unclosed, ended, swept⟩ := inductionHypothesis
      refine ⟨char :: body, after, rfl, ?_, ended, ?_⟩
      · intro inside
        rcases List.infix_cons_iff.mp inside with atFront | later
        · exact closes (atFront.trans (List.prefix_append _ _))
        · exact unclosed later
      · rw [sweep_of_some (find_openCharacter closes) (by simp), swept]
        rfl

/-- A body without an end in it is gone over. -/
theorem sweep_body {body : List Char} (unclosed : ¬ ['*', '/'] <:+: body) (rest : List Char) :
    sweep openCharacter.find (body ++ '*' :: '/' :: rest) = ([], '*' :: '/' :: rest) := by
  induction body with
  | nil => exact sweep_of_none rfl
  | cons char body inductionHypothesis =>
    have goesOn : ¬ ['*', '/'] <+: char :: (body ++ '*' :: '/' :: rest) := by
      rintro ⟨after, same⟩
      cases body with
      | nil => simp at same
      | cons second body =>
        simp only [List.cons_append, List.nil_append, List.cons.injEq] at same
        obtain ⟨rfl, rfl, -⟩ := same
        exact unclosed ⟨[], body, rfl⟩
    have later : ¬ ['*', '/'] <:+: body := fun inside =>
      unclosed (List.infix_cons_iff.mpr (.inr inside))
    rw [List.cons_append, sweep_of_some (find_openCharacter goesOn) (by simp),
      inductionHypothesis later]
    rfl

/-- A comment to the end of a line is gone over up to that end. -/
theorem find_lineComment_eq_some_iff {text after : List Char} {parts : List Part} :
    lineComment.find text = some (parts, after)
      ↔ parts = [] ∧ ∃ body, text = '/' :: '/' :: body ++ after ∧ '\n' ∉ body
        ∧ ∀ char ∈ after.head?, char = '\n' := by
  rw [lineComment, Pattern.find_both_eq_some_iff]
  simp only [find_many_one, Option.some.injEq, Prod.mk.injEq]
  constructor
  · rintro ⟨before, middle, later, begun, ⟨rfl, rfl⟩, rfl⟩
    obtain ⟨rfl, rfl⟩ := Pattern.find_exactly_eq_some_iff.mp begun
    refine ⟨rfl, middle.takeWhile (· != '\n'), ?_, ?_, ?_⟩
    · simp [List.takeWhile_append_dropWhile]
    · intro member
      simpa using List.all_eq_true.mp List.all_takeWhile _ member
    · intro char atFront
      have stopped := List.head?_dropWhile_not (· != '\n') middle
      rw [Option.mem_def.mp atFront] at stopped
      simpa using stopped
  · rintro ⟨rfl, body, rfl, oneLine, ended⟩
    refine ⟨[], body ++ after, [], Pattern.find_exactly_eq_some_iff.mpr ⟨rfl, rfl⟩, ⟨rfl, ?_⟩, rfl⟩
    have passes : ∀ char ∈ body, (char != '\n') = true := by
      intro char member
      have different : char ≠ '\n' := fun same => oneLine (same ▸ member)
      simpa using different
    rw [List.dropWhile_append_of_pos passes]
    cases after with
    | nil => rfl
    | cons char rest =>
      obtain rfl := ended char rfl
      rfl

/-- A comment in brackets is gone over up to the first end in it. -/
theorem find_blockComment_eq_some_iff {text after : List Char} {parts : List Part} :
    blockComment.find text = some (parts, after)
      ↔ parts = [] ∧ ∃ body, text = '/' :: '*' :: body ++ '*' :: '/' :: after
        ∧ ¬ ['*', '/'] <:+: body := by
  have closing : blockComment
      = .both (literal "/*") (.both (.many openCharacter) (literal "*/")) := rfl
  simp only [closing, Pattern.find_both_eq_some_iff, Pattern.find_many_eq_some_iff]
  constructor
  · rintro ⟨_, middle, _, begun, ⟨_, ending, _, swept, closed, rfl⟩, rfl⟩
    obtain ⟨rfl, rfl⟩ := Pattern.find_exactly_eq_some_iff.mp begun
    obtain ⟨rfl, rfl⟩ := Pattern.find_exactly_eq_some_iff.mp closed
    obtain ⟨body, _, rfl, unclosed, -, sameSwept⟩ := sweep_openCharacter middle
    obtain ⟨rfl, rfl⟩ := Prod.mk.inj (sameSwept.symm.trans swept)
    exact ⟨rfl, body, by simp, unclosed⟩
  · rintro ⟨rfl, body, rfl, unclosed⟩
    exact ⟨[], body ++ '*' :: '/' :: after, [], Pattern.find_exactly_eq_some_iff.mpr ⟨rfl, rfl⟩,
      ⟨[], '*' :: '/' :: after, [], sweep_body unclosed after,
        Pattern.find_exactly_eq_some_iff.mpr ⟨rfl, rfl⟩, rfl⟩, rfl⟩

/-- A piece of a gap is a blank or a comment, and no text begins with more than one of them. -/
theorem find_gapPiece_eq_some_iff {text after : List Char} {parts : List Part} :
    gapPiece.find text = some (parts, after)
      ↔ parts = [] ∧ ((∃ char, isBlank char = true ∧ text = char :: after)
        ∨ (∃ body, text = '/' :: '/' :: body ++ after ∧ '\n' ∉ body
          ∧ ∀ char ∈ after.head?, char = '\n')
        ∨ ∃ body, text = '/' :: '*' :: body ++ '*' :: '/' :: after ∧ ¬ ['*', '/'] <:+: body) := by
  have slash : isBlank '/' = false := rfl
  simp only [gapPiece, Pattern.find_either_eq_some_iff, Pattern.find_one_eq_some_iff,
    find_lineComment_eq_some_iff, find_blockComment_eq_some_iff]
  constructor
  · rintro (⟨rfl, blank⟩ | ⟨-, ⟨rfl, line⟩ | ⟨-, rfl, block⟩⟩)
    · exact ⟨rfl, .inl blank⟩
    · exact ⟨rfl, .inr (.inl line)⟩
    · exact ⟨rfl, .inr (.inr block)⟩
  · rintro ⟨rfl, blank | ⟨body, rfl, line⟩ | ⟨body, rfl, block⟩⟩
    · exact .inl ⟨rfl, blank⟩
    · refine .inr ⟨?_, .inl ⟨rfl, body, rfl, line⟩⟩
      simp [Pattern.find, slash]
    · refine .inr ⟨by simp [Pattern.find, slash], .inr ⟨?_, rfl, body, rfl, block⟩⟩
      rw [Pattern.find_eq_none_iff]
      intro parts other found
      obtain ⟨-, line, same, -⟩ := find_lineComment_eq_some_iff.mp found
      simp at same

/-- A text of which a piece of a gap was taken is shorter. -/
theorem length_lt_of_gapPiece {text after : List Char} {parts : List Part}
    (found : gapPiece.find text = some (parts, after)) : after.length < text.length := by
  obtain ⟨-, ⟨char, -, rfl⟩ | ⟨body, rfl, -⟩ | ⟨body, rfl, -⟩⟩ :=
    find_gapPiece_eq_some_iff.mp found
  · simp
  · simp
    omega
  · simp
    omega

/-- Going over a piece of a gap does not change where the text settles. -/
theorem settle_eq {text after : List Char} {parts : List Part}
    (found : gapPiece.find text = some (parts, after)) : settle text = settle after := by
  obtain ⟨rfl, -⟩ := find_gapPiece_eq_some_iff.mp found
  exact settle_of_some found (length_lt_of_gapPiece found)

/-- Nothing settles as nothing. -/
theorem settle_nil : settle [] = [] := settle_of_none rfl

/-- Every gap that begins where a text begins leaves something that settles where the text
does. -/
theorem settle_of_skips {text rest : List Char} (skips : Skips text rest) :
    settle text = settle rest := by
  induction skips with
  | nothing => rfl
  | blank blank _ inductionHypothesis =>
    rw [← inductionHypothesis]
    exact settle_eq (find_gapPiece_eq_some_iff.mpr ⟨rfl, .inl ⟨_, blank, rfl⟩⟩)
  | @line body text rest oneLine _ inductionHypothesis =>
    have lineEnd : settle ('\n' :: text) = settle text :=
      settle_eq (find_gapPiece_eq_some_iff.mpr ⟨rfl, .inl ⟨_, rfl, rfl⟩⟩)
    rw [← inductionHypothesis, ← lineEnd]
    exact settle_eq (find_gapPiece_eq_some_iff.mpr
      ⟨rfl, .inr (.inl ⟨body, rfl, oneLine, by simp⟩)⟩)
  | @block body text rest unclosed _ inductionHypothesis =>
    rw [← inductionHypothesis]
    exact settle_eq (find_gapPiece_eq_some_iff.mpr ⟨rfl, .inr (.inr ⟨body, rfl, unclosed⟩)⟩)
  | @lastLine body oneLine =>
    exact settle_eq (find_gapPiece_eq_some_iff.mpr
      ⟨rfl, .inr (.inl ⟨body, (List.append_nil _).symm, oneLine, by simp⟩)⟩)

/-- A gap leads to where the text settles. The end of a line comment belongs to the comment, so
the induction goes over it at once. -/
theorem skips_settle (text : List Char) : Skips text (settle text) := by
  induction length : text.length using Nat.strongRecOn generalizing text with
  | ind count inductionHypothesis =>
    subst length
    cases found : gapPiece.find text with
    | none =>
      rw [settle_of_none found]
      exact .nothing
    | some piece =>
      obtain ⟨parts, after⟩ := piece
      have shorter := length_lt_of_gapPiece found
      rw [settle_eq found]
      obtain ⟨-, ⟨char, blank, rfl⟩ | ⟨body, rfl, oneLine, lineEnd⟩ | ⟨body, rfl, unclosed⟩⟩ :=
        find_gapPiece_eq_some_iff.mp found
      · exact .blank blank (inductionHypothesis _ shorter after rfl)
      · cases after with
        | nil =>
          rw [settle_nil, List.append_nil]
          exact .lastLine oneLine
        | cons char rest =>
          obtain rfl := lineEnd char rfl
          have further : gapPiece.find ('\n' :: rest) = some ([], rest) :=
            find_gapPiece_eq_some_iff.mpr ⟨rfl, .inl ⟨_, rfl, rfl⟩⟩
          rw [settle_eq further]
          exact .line oneLine
            (inductionHypothesis _ (Nat.lt_trans (length_lt_of_gapPiece further) shorter) rest rfl)
      · exact .block unclosed (inductionHypothesis _ shorter after rfl)

/-- Once a text has settled it stays. -/
theorem settle_settle (text : List Char) : settle (settle text) = settle text :=
  (settle_of_skips (skips_settle text)).symm

/-- A text that begins with no piece of a gap has settled. -/
theorem settle_of_solid {char : Char} {rest : List Char} (solid : isBlank char = false)
    (uncommented : char = '/' → ∀ next ∈ rest.head?, next ≠ '/' ∧ next ≠ '*') :
    settle (char :: rest) = char :: rest := by
  apply settle_of_none
  rw [Pattern.find_eq_none_iff]
  intro parts after found
  obtain ⟨-, ⟨other, blank, same⟩ | ⟨body, same, -⟩ | ⟨body, same, -⟩⟩ :=
    find_gapPiece_eq_some_iff.mp found
  · obtain ⟨rfl, -⟩ := List.cons.inj same
    rw [solid] at blank
    cases blank
  · obtain ⟨rfl, rfl⟩ := List.cons.inj same
    exact (uncommented rfl '/' rfl).1 rfl
  · obtain ⟨rfl, rfl⟩ := List.cons.inj same
    exact (uncommented rfl '*' rfl).2 rfl

/-- A text settles at the end of itself. -/
theorem settle_suffix (text : List Char) : settle text <:+ text :=
  Pattern.sweep_suffix (fun _ _ _ => Pattern.find_suffix) text

/-- At a settled text no gap begins. -/
theorem find_gapPiece_settle (text : List Char) : gapPiece.find (settle text) = none := by
  rw [Pattern.find_eq_none_iff]
  intro parts after found
  have shorter := length_lt_of_gapPiece found
  have same := settle_eq found
  rw [settle_settle] at same
  have bounded := (settle_suffix after).length_le
  rw [← same] at bounded
  omega

/-- A settled text does not begin with two slashes. -/
theorem head?_ne_slash_of_settle {text rest : List Char} (settled : settle text = '/' :: rest) :
    rest.head? ≠ some '/' := by
  intro second
  obtain ⟨more, rfl⟩ := List.head?_eq_some_iff.mp second
  have solid := find_gapPiece_settle text
  rw [settled] at solid
  simp [gapPiece, lineComment, literal, Pattern.find, isBlank] at solid

/-- The characters that a gap may begin with. -/
def gapOpeners : List Char := [' ', '\t', '\r', '\n', '/']

/-- They are the blanks, and the slash of comments. -/
theorem mem_gapOpeners {char : Char} : char ∈ gapOpeners ↔ isBlank char = true ∨ char = '/' := by
  simp [gapOpeners, isBlank, or_assoc]

/-- The first character of a text is that of the settled text, unless a gap may begin there. -/
theorem head?_cases (text : List Char) :
    text.head? = (settle text).head? ∨ ∃ char ∈ text.head?, char ∈ gapOpeners := by
  cases text with
  | nil => exact .inl (by rw [settle_nil])
  | cons char rest =>
    by_cases gap : char ∈ gapOpeners
    · exact .inr ⟨char, rfl, gap⟩
    · rw [mem_gapOpeners, not_or, Bool.not_eq_true] at gap
      rw [settle_of_solid gap.1 fun slash => (gap.2 slash).elim]
      exact .inl rfl

end Grammar

end Nonlocal.Source
