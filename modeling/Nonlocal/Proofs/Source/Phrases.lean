import Nonlocal.Proofs.Source.Layouts

/-!
# Patterns that read pieces

A pattern reads pieces of a document if what it finds at a settled place is the parts of a
piece whose tokens stand there, and if in turn it finds every piece whose tokens stand
there, provided that the character after them does not continue it. Patterns are put
together as the grammar is: one after another, repeated, left out, listed in brackets. A
greedy repetition comes to the right end because the next token cannot begin another
piece.
-/

namespace Nonlocal.Source.Language

open Grammar (settle gap)

variable {α β : Type} {pattern first second body : Pattern} {tokens : α → List (List Char)}
  {parts : α → List Part} {ends : Option Char → Prop} {opens : Char → Prop} {text : List Char}

/-- At settled places a pattern finds the pieces whose tokens stand there, unless the character
after them continues the last one. -/
structure Reads (pattern : Pattern) (tokens : α → List (List Char)) (parts : α → List Part)
    (ends : Option Char → Prop) : Prop where
  sound : ∀ {text after found}, pattern.find (settle text) = some (found, after) →
    ∃ piece, found = parts piece ∧ Reaches (tokens piece) text after
  complete : ∀ {piece text rest}, Reaches (tokens piece) text rest → ends (settle rest).head? →
    ∃ after, pattern.find (settle text) = some (parts piece, after) ∧ settle after = settle rest

/-- Every piece begins with one of some characters. -/
def Opens (tokens : α → List (List Char)) (opens : Char → Prop) : Prop :=
  ∀ piece, ∃ char token more, tokens piece = (char :: token) :: more ∧ opens char

/-- A pattern that takes at least one character. -/
def Advances (pattern : Pattern) : Prop :=
  ∀ text parts after, pattern.find text = some (parts, after) → after.length < text.length

/-- After a gap a pattern finds what it finds where the text has settled. -/
theorem find_both_gap (pattern : Pattern) (text : List Char) :
    (Pattern.both gap pattern).find text = pattern.find (settle text) := by
  rw [Pattern.find, Grammar.find_gap]
  simp only [Option.bind_eq_bind, Option.bind_some]
  cases pattern.find (settle text) <;> rfl

/-- Given characters take at least one, if there is one. -/
theorem advances_exactly (char : Char) (expected : List Char) :
    Advances (.exactly (char :: expected)) := by
  intro text parts after found
  obtain ⟨-, rfl⟩ := Pattern.find_exactly_eq_some_iff.mp found
  rw [List.length_append, List.length_cons]
  omega

/-- A pattern takes a character if its beginning does. -/
theorem Advances.both (advances : Advances first) (second : Pattern) :
    Advances (.both first second) := by
  intro text parts after found
  obtain ⟨_, _, _, foundFirst, foundSecond, -⟩ := Pattern.find_both_eq_some_iff.mp found
  exact Nat.lt_of_le_of_lt (Pattern.find_suffix foundSecond).length_le (advances _ _ _ foundFirst)

/-- A pattern takes a character if both its alternatives do. -/
theorem Advances.either (advances : Advances first) (advances' : Advances second) :
    Advances (.either first second) := by
  intro text parts after found
  rcases Pattern.find_either_eq_some_iff.mp found with foundFirst | ⟨-, foundSecond⟩
  · exact advances _ _ _ foundFirst
  · exact advances' _ _ _ foundSecond

/-- A part takes a character if its body does. -/
theorem Advances.named (advances : Advances body) (rule : Rule) : Advances (.named rule body) := by
  intro text parts after found
  obtain ⟨_, foundBody, -⟩ := Pattern.find_named_eq_some_iff.mp found
  exact advances _ _ _ foundBody

/-- A text over whose tokens one comes to a rest begins as they do. -/
theorem Opens.exists_head (opening : Opens tokens opens) {piece : α} {rest : List Char}
    (reaches : Reaches (tokens piece) text rest) :
    ∃ char, (settle text).head? = some char ∧ opens char := by
  obtain ⟨char, token, more, same, isOpening⟩ := opening piece
  rw [same] at reaches
  exact ⟨char, reaches.head?, isOpening⟩

/-- Pieces of two kinds begin as those of the one kind or those of the other. -/
theorem Opens.sum {tokens' : β → List (List Char)} {opens' : Char → Prop}
    (opening : Opens tokens opens) (opening' : Opens tokens' opens') :
    Opens (Sum.elim tokens tokens') fun char => opens char ∨ opens' char := by
  rintro (piece | piece)
  · obtain ⟨char, token, more, same, isOpening⟩ := opening piece
    exact ⟨char, token, more, same, .inl isOpening⟩
  · obtain ⟨char, token, more, same, isOpening⟩ := opening' piece
    exact ⟨char, token, more, same, .inr isOpening⟩

namespace Reads

/-- Nothing is found where no piece begins. -/
theorem find_eq_none (reads : Reads pattern tokens parts ends) (opening : Opens tokens opens)
    (closed : ∀ char ∈ (settle text).head?, ¬ opens char) : pattern.find (settle text) = none := by
  rw [Pattern.find_eq_none_iff]
  intro found after isFound
  obtain ⟨piece, -, reaches⟩ := reads.sound isFound
  obtain ⟨char, atFront, isOpening⟩ := opening.exists_head reaches
  exact closed char atFront isOpening

/-- Pieces may be told in other terms. -/
theorem image (reads : Reads pattern tokens parts ends) {tokens' : β → List (List Char)}
    {parts' : β → List Part} (f : α → β) (surjective : Function.Surjective f)
    (sameTokens : ∀ piece, tokens' (f piece) = tokens piece)
    (sameParts : ∀ piece, parts' (f piece) = parts piece) :
    Reads pattern tokens' parts' ends where
  sound found := by
    obtain ⟨piece, rfl, reaches⟩ := reads.sound found
    exact ⟨f piece, (sameParts piece).symm, by rwa [sameTokens]⟩
  complete := by
    intro other text rest reaches ended
    obtain ⟨piece, rfl⟩ := surjective other
    rw [sameTokens] at reaches
    rw [sameParts]
    exact reads.complete reaches ended

/-- A part holds what its body reads. -/
theorem named (reads : Reads body tokens parts ends) {rule : Rule}
    (composed : rule.isToken = false) :
    Reads (.named rule body) tokens (fun piece => [.mk rule [] (parts piece)]) ends where
  sound found := by
    obtain ⟨children, foundBody, rfl⟩ := Pattern.find_named_eq_some_iff.mp found
    obtain ⟨piece, rfl, reaches⟩ := reads.sound foundBody
    exact ⟨piece, by simp [composed], reaches⟩
  complete reaches ended := by
    obtain ⟨after, found, alike⟩ := reads.complete reaches ended
    refine ⟨after, ?_, alike⟩
    rw [Pattern.find_named_eq_some_iff]
    exact ⟨_, found, by simp [composed]⟩

/-- Two patterns with a gap between them read a piece after another, if the second piece does
not continue the first. -/
theorem both {tokens' : β → List (List Char)} {parts' : β → List Part}
    {ends' : Option Char → Prop} (reads : Reads first tokens parts ends)
    (reads' : Reads second tokens' parts' ends')
    (follows : ∀ piece text rest, Reaches (tokens' piece) text rest → ends' (settle rest).head? →
      ends (settle text).head?) :
    Reads (.both first (.both gap second)) (fun pair : α × β => tokens pair.1 ++ tokens' pair.2)
      (fun pair => parts pair.1 ++ parts' pair.2) ends' where
  sound found := by
    obtain ⟨before, middle, later, foundFirst, foundSecond, rfl⟩ :=
      Pattern.find_both_eq_some_iff.mp found
    rw [find_both_gap] at foundSecond
    obtain ⟨piece, rfl, reaches⟩ := reads.sound foundFirst
    obtain ⟨piece', rfl, reaches'⟩ := reads'.sound foundSecond
    exact ⟨(piece, piece'), rfl, reaches_append.mpr ⟨middle, reaches, reaches'⟩⟩
  complete := by
    rintro ⟨piece, piece'⟩ text rest reaches ended
    obtain ⟨middle, reachesFirst, reachesSecond⟩ := reaches_append.mp reaches
    obtain ⟨after, foundFirst, alike⟩ :=
      reads.complete reachesFirst (follows piece' middle rest reachesSecond ended)
    obtain ⟨last, foundSecond, alikeLast⟩ := reads'.complete reachesSecond ended
    rw [← alike, ← find_both_gap] at foundSecond
    refine ⟨last, ?_, alikeLast⟩
    exact Pattern.find_both_eq_some_iff.mpr ⟨_, after, _, foundFirst, foundSecond, rfl⟩

/-- What may be left out reads a piece or none. -/
theorem maybe (reads : Reads body tokens parts ends) (opening : Opens tokens opens) :
    Reads (.maybe body) (fun piece : Option α => (piece.map tokens).getD [])
      (fun piece => (piece.map parts).getD [])
      (fun char? => ends char? ∧ ∀ char ∈ char?, ¬ opens char) where
  sound found := by
    rcases Pattern.find_maybe_eq_some_iff.mp found with foundBody | ⟨-, rfl, rfl⟩
    · obtain ⟨piece, rfl, reaches⟩ := reads.sound foundBody
      exact ⟨some piece, rfl, reaches⟩
    · exact ⟨none, rfl, (Grammar.settle_settle _).symm⟩
  complete := by
    rintro (_ | piece) text rest reaches ⟨ended, closed⟩
    · have alike := reaches_nil.mp reaches
      rw [← alike] at closed
      refine ⟨settle text, Pattern.find_maybe_eq_some_iff.mpr (.inr ⟨?_, rfl, rfl⟩), ?_⟩
      · exact reads.find_eq_none opening closed
      · rw [Grammar.settle_settle, alike]
    · obtain ⟨after, found, alike⟩ := reads.complete reaches ended
      exact ⟨after, Pattern.find_maybe_eq_some_iff.mpr (.inl found), alike⟩

/-- Of two alternatives the second is read where the first does not match. -/
theorem either {tokens' : β → List (List Char)} {parts' : β → List Part}
    {ends' ends'' : Option Char → Prop} (reads : Reads first tokens parts ends)
    (reads' : Reads second tokens' parts' ends')
    (apart : ∀ piece text rest, Reaches (tokens' piece) text rest → ends'' (settle rest).head? →
      first.find (settle text) = none)
    (narrow : ∀ char?, ends'' char? → ends char?) (narrow' : ∀ char?, ends'' char? → ends' char?) :
    Reads (.either first second) (Sum.elim tokens tokens') (Sum.elim parts parts') ends'' where
  sound found := by
    rcases Pattern.find_either_eq_some_iff.mp found with foundFirst | ⟨-, foundSecond⟩
    · obtain ⟨piece, rfl, reaches⟩ := reads.sound foundFirst
      exact ⟨.inl piece, rfl, reaches⟩
    · obtain ⟨piece, rfl, reaches⟩ := reads'.sound foundSecond
      exact ⟨.inr piece, rfl, reaches⟩
  complete := by
    rintro (piece | piece) text rest reaches ended
    · obtain ⟨after, found, alike⟩ := reads.complete reaches (narrow _ ended)
      exact ⟨after, Pattern.find_either_eq_some_iff.mpr (.inl found), alike⟩
    · obtain ⟨after, found, alike⟩ := reads'.complete reaches (narrow' _ ended)
      have absent := apart piece text rest reaches ended
      exact ⟨after, Pattern.find_either_eq_some_iff.mpr (.inr ⟨absent, found⟩), alike⟩

/-- Of two alternatives that begin differently either is read. -/
theorem choice {tokens' : β → List (List Char)} {parts' : β → List Part} {opens' : Char → Prop}
    (reads : Reads first tokens parts ends) (reads' : Reads second tokens' parts' ends)
    (opening : Opens tokens opens) (opening' : Opens tokens' opens')
    (apart : ∀ char, opens' char → ¬ opens char) :
    Reads (.either first second) (Sum.elim tokens tokens') (Sum.elim parts parts') ends := by
  refine reads.either reads' ?_ (fun _ => id) (fun _ => id)
  intro piece text rest reaches _
  obtain ⟨char, atFront, isOpening⟩ := opening'.exists_head reaches
  apply reads.find_eq_none opening
  rw [atFront]
  rintro other ⟨⟩
  exact apart char isOpening

/-- What is swept up with gaps before it is piece after piece. -/
theorem sweep_sound (reads : Reads body tokens parts ends) (text : List Char) :
    ∃ pieces : List α, (sweep (Pattern.both gap body).find text).1 = pieces.flatMap parts
      ∧ Reaches (pieces.flatMap tokens) text (sweep (Pattern.both gap body).find text).2 := by
  fun_induction sweep (Pattern.both gap body).find text with
  | case1 text ended => exact ⟨[], rfl, rfl⟩
  | case2 text found after isFound advanced inductionHypothesis =>
    obtain ⟨pieces, same, reaches⟩ := inductionHypothesis
    rw [find_both_gap] at isFound
    obtain ⟨piece, rfl, reachesFirst⟩ := reads.sound isFound
    refine ⟨piece :: pieces, by rw [same, List.flatMap_cons], ?_⟩
    rw [List.flatMap_cons]
    exact reaches_append.mpr ⟨after, reachesFirst, reaches⟩
  | case3 text found after isFound stuck =>
    rw [find_both_gap] at isFound
    obtain ⟨piece, rfl, reaches⟩ := reads.sound isFound
    exact ⟨[piece], by simp, by simpa using reaches⟩

/-- Pieces whose tokens stand there are swept up, if each piece may be followed by the next and
what comes after the last one begins no piece. -/
theorem sweep_complete (reads : Reads body tokens parts ends) (opening : Opens tokens opens)
    (advances : Advances body) (follows : ∀ char, opens char → ends (some char))
    {pieces : List α} {rest : List Char} (reaches : Reaches (pieces.flatMap tokens) text rest)
    (ended : ends (settle rest).head?) (closed : ∀ char ∈ (settle rest).head?, ¬ opens char) :
    ∃ after, sweep (Pattern.both gap body).find text = (pieces.flatMap parts, after)
      ∧ settle after = settle rest := by
  induction pieces generalizing text with
  | nil =>
    have alike := reaches_nil.mp reaches
    rw [← alike] at closed
    refine ⟨text, sweep_of_none ?_, alike⟩
    rw [find_both_gap]
    exact reads.find_eq_none opening closed
  | cons piece pieces inductionHypothesis =>
    rw [List.flatMap_cons] at reaches
    obtain ⟨middle, reachesFirst, reachesLater⟩ := reaches_append.mp reaches
    have endedFirst : ends (settle middle).head? := by
      cases pieces with
      | nil =>
        have alike := reaches_nil.mp reachesLater
        rwa [alike]
      | cons next others =>
        rw [List.flatMap_cons] at reachesLater
        obtain ⟨_, reachesNext, -⟩ := reaches_append.mp reachesLater
        obtain ⟨char, atFront, isOpening⟩ := opening.exists_head reachesNext
        rw [atFront]
        exact follows char isOpening
    obtain ⟨after, found, alike⟩ := reads.complete reachesFirst endedFirst
    obtain ⟨last, swept, alikeLast⟩ := inductionHypothesis (reachesLater.of_settle alike)
    have shorter : after.length < text.length :=
      Nat.lt_of_lt_of_le (advances _ _ _ found) (Grammar.settle_suffix text).length_le
    rw [← find_both_gap] at found
    exact ⟨last, by rw [sweep_of_some found shorter, swept, List.flatMap_cons], alikeLast⟩

/-- A repetition with gaps between the pieces finds what is swept up. -/
theorem exists_find_manySpaced (advances : Advances body) (text : List Char) :
    ∃ after, (Grammar.manySpaced body).find (settle text)
        = some ((sweep (Pattern.both gap body).find text).1, after)
      ∧ settle after = settle (sweep (Pattern.both gap body).find text).2 := by
  have gone := find_both_gap body text
  cases step : body.find (settle text) with
  | none =>
    rw [step] at gone
    rw [sweep_of_none gone]
    refine ⟨settle text, Pattern.find_maybe_eq_some_iff.mpr (.inr ⟨?_, rfl, rfl⟩),
      Grammar.settle_settle text⟩
    rw [Pattern.find, step]
    rfl
  | some first =>
    obtain ⟨found, middle⟩ := first
    rw [step] at gone
    have shorter : middle.length < text.length :=
      Nat.lt_of_lt_of_le (advances _ _ _ step) (Grammar.settle_suffix text).length_le
    rw [sweep_of_some gone shorter]
    refine ⟨_, Pattern.find_maybe_eq_some_iff.mpr (.inl ?_), rfl⟩
    exact Pattern.find_both_eq_some_iff.mpr ⟨found, middle, _, step, rfl, rfl⟩

/-- A repetition with gaps between the pieces reads a list of pieces. -/
theorem manySpaced (reads : Reads body tokens parts ends) (opening : Opens tokens opens)
    (advances : Advances body) (follows : ∀ char, opens char → ends (some char)) :
    Reads (Grammar.manySpaced body) (fun pieces : List α => pieces.flatMap tokens)
      (fun pieces => pieces.flatMap parts)
      (fun char? => ends char? ∧ ∀ char ∈ char?, ¬ opens char) where
  sound := by
    intro text after found isFound
    obtain ⟨last, same, alike⟩ := exists_find_manySpaced advances text
    obtain ⟨pieces, samePieces, reaches⟩ := reads.sweep_sound text
    rw [same, Option.some.injEq, Prod.mk.injEq] at isFound
    obtain ⟨rfl, rfl⟩ := isFound
    exact ⟨pieces, samePieces, reaches.to_settle alike.symm⟩
  complete := by
    rintro pieces text rest reaches ⟨ended, closed⟩
    obtain ⟨last, same, alike⟩ := exists_find_manySpaced advances text
    obtain ⟨after, swept, alikeRest⟩ :=
      reads.sweep_complete opening advances follows reaches ended closed
    rw [swept] at same alike
    exact ⟨last, same, alike.trans alikeRest⟩

/-- Given characters read themselves. -/
theorem exactly (expected : List Char) :
    Reads (.exactly expected) (fun _ : Unit => [expected]) (fun _ => []) (fun _ => True) where
  sound := by
    intro text after found isFound
    obtain ⟨rfl, settled⟩ := Pattern.find_exactly_eq_some_iff.mp isFound
    refine ⟨(), rfl, after, settled, ?_, rfl⟩
    rintro rfl
    exact Grammar.head?_ne_slash_of_settle settled
  complete := by
    rintro ⟨⟩ text rest ⟨after, settled, -, alike⟩ -
    exact ⟨after, Pattern.find_exactly_eq_some_iff.mpr ⟨rfl, settled⟩, alike⟩

/-- Given characters before a pattern are read with each of its pieces. -/
theorem after (reads : Reads pattern tokens parts ends) (expected : List Char) :
    Reads (.both (.exactly expected) (.both gap pattern)) (fun piece => expected :: tokens piece)
      parts ends :=
  ((exactly expected).both reads fun _ _ _ _ _ => trivial).image Prod.snd
    (fun piece => ⟨((), piece), rfl⟩) (fun _ => rfl) (fun _ => rfl)

/-- Given characters after a pattern are read with each of its pieces that they do not
continue. -/
theorem before (reads : Reads pattern tokens parts ends) (char : Char) (expected : List Char)
    (ended : ends (some char)) :
    Reads (.both pattern (.both gap (.exactly (char :: expected))))
      (fun piece => tokens piece ++ [char :: expected]) parts (fun _ => True) := by
  have follows : ∀ (_ : Unit) (text rest : List Char),
      Reaches [char :: expected] text rest → True → ends (settle text).head? := by
    intro _ text rest reaches _
    rwa [reaches.head?]
  exact (reads.both (exactly (char :: expected)) follows).image Prod.fst
    (fun piece => ⟨(piece, ()), rfl⟩) (fun _ => rfl) (fun _ => (List.append_nil _).symm)

/-- A list in brackets reads the items that are listed in it. -/
theorem bracketed {item : Pattern} (reads : Reads item tokens parts ends)
    (opening : Opens tokens opens) (unbracketed : ¬ opens ']') (comma : ends (some ','))
    (bracket : ends (some ']')) :
    Reads (Grammar.bracketed item) (fun items : List α => listed (items.map tokens))
      (fun items => items.flatMap parts) (fun _ => True) := by
  have later := reads.after [',']
  have openingLater : Opens (fun piece => [','] :: tokens piece) (· = ',') :=
    fun piece => ⟨',', [], tokens piece, rfl, rfl⟩
  have advances := (advances_exactly ',' []).both (.both gap item)
  have others := later.manySpaced openingLater advances (by rintro char rfl; exact comma)
  have follows : ∀ (pieces : List α) (text rest : List Char),
      Reaches (pieces.flatMap fun piece => [','] :: tokens piece) text rest →
      (ends (settle rest).head? ∧ ∀ char ∈ (settle rest).head?, ¬ char = ',') →
      ends (settle text).head? := by
    rintro pieces text rest reaches ⟨ended, -⟩
    cases pieces with
    | nil =>
      have alike := reaches_nil.mp reaches
      rwa [alike]
    | cons piece pieces => rwa [reaches.head?]
  have nonempty := reads.both others follows
  have openingFirst : Opens (fun pair : α × List α =>
      tokens pair.1 ++ pair.2.flatMap fun piece => [','] :: tokens piece) opens := by
    rintro ⟨first, rest⟩
    obtain ⟨char, token, more, same, isOpening⟩ := opening first
    refine ⟨char, token, more ++ rest.flatMap fun piece => [','] :: tokens piece, ?_, isOpening⟩
    simp only [same, List.cons_append]
  have inside := (nonempty.maybe openingFirst).before ']' []
    ⟨⟨bracket, by simp⟩, by simpa using unbracketed⟩
  refine (inside.after ['[']).image
    (fun items? => (items?.map fun pair => pair.1 :: pair.2).getD []) ?_ ?_ ?_
  · rintro (_ | ⟨first, rest⟩)
    · exact ⟨none, rfl⟩
    · exact ⟨some (first, rest), rfl⟩
  · rintro (_ | ⟨first, rest⟩)
    · rfl
    · simp [listed, List.flatMap_map]
  · rintro (_ | ⟨first, rest⟩)
    · rfl
    · simp

end Reads

end Nonlocal.Source.Language
