import Nonlocal.Source.Matching

/-!
# What a pattern finds

Whether a pattern matches, and which parts it finds, depends neither on the record of
failures nor on how far into the source the text begins. Here a pattern is run on the
text that is left alone; the parts it finds are told without their places. Both ways of
matching agree at every cursor.
-/

namespace Nonlocal

namespace Text

/-- A text with characters has bytes. -/
theorem utf8Length_pos {text : List Char} (nonempty : text ≠ []) : 0 < utf8Length text := by
  cases text with
  | nil => exact (nonempty rfl).elim
  | cons char rest =>
    have positive := char.utf8Size_pos
    rw [utf8Length_cons]
    omega

/-- Continuing a cut by the bytes of some characters passes these characters. -/
theorem splitBytesFrom_append (passed taken rest : List Char) :
    splitBytesFrom passed (utf8Length taken) (taken ++ rest) = (passed.reverse ++ taken, rest) := by
  induction taken generalizing passed with
  | nil => simp [splitBytesFrom]
  | cons char taken inductionHypothesis =>
    obtain ⟨size, counted⟩ := Nat.exists_eq_succ_of_ne_zero
      (Nat.ne_of_gt char.utf8Size_pos)
    have bytes : utf8Length (char :: taken) = size + utf8Length taken + 1 := by
      rw [utf8Length_cons, counted]
      omega
    have left : size + utf8Length taken + 1 - char.utf8Size = utf8Length taken := by omega
    rw [bytes, List.cons_append, splitBytesFrom, left, inductionHypothesis]
    simp

/-- A text is cut after the bytes of its beginning. -/
theorem splitBytes_append (taken rest : List Char) :
    splitBytes (utf8Length taken) (taken ++ rest) = (taken, rest) :=
  splitBytesFrom_append [] taken rest

end Text

namespace Source

/-- A part is a single token, so that its characters matter. -/
def Rule.isToken : Rule → Bool
  | .number | .integer | .identifier => true
  | _ => false

/-- A part without its place: what it is, its characters if it is a token, and the parts
inside it. -/
inductive Part where
  | mk (rule : Rule) (chars : List Char) (children : List Part)

/-- The part that a node stands for. -/
def Node.part : Node → Part
  | node@(.mk rule _ _ _ children) =>
    .mk rule (if rule.isToken then node.text else []) (children.map Node.part)

/-- Finds parts as often as possible. What is found without taking a character is the last. -/
def sweep (body : List Char → Option (List Part × List Char)) (text : List Char) :
    List Part × List Char :=
  match body text with
  | none => ([], text)
  | some (parts, after) =>
    if after.length < text.length then
      (parts ++ (sweep body after).1, (sweep body after).2)
    else (parts, after)
termination_by text.length

/-- The parts that a pattern finds at the beginning of a text, and what it leaves of it. -/
@[simp] def Pattern.find : Pattern → List Char → Option (List Part × List Char)
  | .exactly expected, text =>
    if expected.isPrefixOf text then some ([], text.drop expected.length) else none
  | .one test, text =>
    match text with
    | [] => none
    | char :: rest => if test char then some ([], rest) else none
  | .finish, text => if text.isEmpty then some ([], text) else none
  | .both first second, text => do
    let (parts, middle) ← first.find text
    let (more, after) ← second.find middle
    some (parts ++ more, after)
  | .either first second, text =>
    match first.find text with
    | none => second.find text
    | found => found
  | .many body, text => some (sweep body.find text)
  | .maybe body, text =>
    match body.find text with
    | none => some ([], text)
    | found => found
  | .notBefore body, text =>
    match body.find text with
    | none => some ([], text)
    | some _ => none
  | .named rule body, text => do
    let (children, after) ← body.find text
    let chars := if rule.isToken then text.take (text.length - after.length) else []
    some ([.mk rule chars children], after)

/-- Where the body finds nothing, nothing more is found. -/
theorem sweep_of_none {body : List Char → Option (List Part × List Char)} {text : List Char}
    (ended : body text = none) : sweep body text = ([], text) := by
  rw [sweep, ended]

/-- What the body finds is found, with what is found after it. -/
theorem sweep_of_some {body : List Char → Option (List Part × List Char)}
    {text after : List Char} {parts : List Part} (found : body text = some (parts, after))
    (advanced : after.length < text.length) :
    sweep body text = (parts ++ (sweep body after).1, (sweep body after).2) := by
  rw [sweep, found]
  simp only [if_pos advanced]

namespace Pattern

section

variable {first second body : Pattern} {expected text after : List Char} {parts : List Part}

/-- A pattern does not match where it finds nothing that it could leave. -/
theorem find_eq_none_iff {pattern : Pattern} :
    pattern.find text = none ↔ ∀ parts after, pattern.find text ≠ some (parts, after) := by
  rw [Option.eq_none_iff_forall_ne_some, Prod.forall]

/-- Given characters are found where they come next. -/
theorem find_exactly_eq_some_iff :
    (exactly expected).find text = some (parts, after) ↔ parts = [] ∧ text = expected ++ after := by
  rw [find]
  constructor
  · intro found
    split at found
    · next comes =>
      obtain ⟨rfl, rfl⟩ := Prod.mk.inj (Option.some.inj found)
      obtain ⟨rest, rfl⟩ := List.isPrefixOf_iff_prefix.mp comes
      simp
    · cases found
  · rintro ⟨rfl, rfl⟩
    simp

/-- Given characters are not found where another one comes next. -/
theorem find_exactly_eq_none {char : Char} (different : text.head? ≠ some char) :
    (exactly (char :: expected)).find text = none := by
  rw [find_eq_none_iff]
  intro parts after found
  obtain ⟨-, rfl⟩ := find_exactly_eq_some_iff.mp found
  exact different rfl

/-- One character of a class is found where it comes next. -/
theorem find_one_eq_some_iff {test : Char → Bool} :
    (one test).find text = some (parts, after)
      ↔ parts = [] ∧ ∃ char, test char = true ∧ text = char :: after := by
  cases text with
  | nil => simp [find]
  | cons char rest =>
    simp only [find]
    constructor
    · intro found
      split at found
      · next passes =>
        obtain ⟨rfl, rfl⟩ := Prod.mk.inj (Option.some.inj found)
        exact ⟨rfl, char, passes, rfl⟩
      · cases found
    · rintro ⟨rfl, other, passes, same⟩
      obtain ⟨rfl, rfl⟩ := List.cons.inj same
      rw [if_pos passes]

/-- The end is found where nothing is left. -/
theorem find_finish_eq_some_iff :
    finish.find text = some (parts, after) ↔ parts = [] ∧ text = [] ∧ after = [] := by
  rw [find]
  cases text <;> simp [eq_comm]

/-- One pattern after another is found where the first leaves a place for the second. -/
theorem find_both_eq_some_iff :
    (both first second).find text = some (parts, after)
      ↔ ∃ before middle later, first.find text = some (before, middle)
        ∧ second.find middle = some (later, after) ∧ parts = before ++ later := by
  simp only [find, Option.bind_eq_bind, Option.bind_eq_some_iff, Option.some.injEq, Prod.mk.injEq]
  constructor
  · rintro ⟨⟨before, middle⟩, foundFirst, ⟨later, last⟩, foundSecond, rfl, rfl⟩
    exact ⟨before, middle, later, foundFirst, foundSecond, rfl⟩
  · rintro ⟨before, middle, later, foundFirst, foundSecond, rfl⟩
    exact ⟨(before, middle), foundFirst, (later, after), foundSecond, rfl, rfl⟩

/-- Without the first there is not one after another. -/
theorem find_both_eq_none (absent : first.find text = none) :
    (both first second).find text = none := by
  rw [find, absent]
  rfl

/-- The second alternative is found where the first is not. -/
theorem find_either_eq_some_iff :
    (either first second).find text = some (parts, after)
      ↔ first.find text = some (parts, after)
        ∨ (first.find text = none ∧ second.find text = some (parts, after)) := by
  rw [find]
  cases first.find text <;> simp

/-- Neither alternative matches where their choice does not. -/
theorem find_either_eq_none_iff :
    (either first second).find text = none ↔ first.find text = none ∧ second.find text = none := by
  rw [find]
  cases first.find text <;> simp

/-- What may be left out is found, or nothing is. -/
theorem find_maybe_eq_some_iff :
    (maybe body).find text = some (parts, after)
      ↔ body.find text = some (parts, after)
        ∨ (body.find text = none ∧ parts = [] ∧ after = text) := by
  rw [find]
  cases body.find text <;> simp [eq_comm]

/-- Nothing is found where a pattern does not match. -/
theorem find_notBefore_eq_some_iff :
    (notBefore body).find text = some (parts, after)
      ↔ body.find text = none ∧ parts = [] ∧ after = text := by
  rw [find]
  cases body.find text <;> simp [eq_comm]

/-- Repetitions are swept up. -/
theorem find_many_eq_some_iff :
    (many body).find text = some (parts, after) ↔ sweep body.find text = (parts, after) := by
  rw [find, Option.some.injEq]

/-- A part is found where its body is, and holds what the body found. -/
theorem find_named_eq_some_iff {rule : Rule} :
    (named rule body).find text = some (parts, after)
      ↔ ∃ children, body.find text = some (children, after)
        ∧ parts = [.mk rule
          (if rule.isToken then text.take (text.length - after.length) else []) children] := by
  simp only [find, Option.bind_eq_bind, Option.bind_eq_some_iff, Option.some.injEq, Prod.mk.injEq]
  constructor
  · rintro ⟨⟨children, last⟩, found, rfl, rfl⟩
    exact ⟨children, found, rfl⟩
  · rintro ⟨children, found, rfl⟩
    exact ⟨(children, after), found, rfl, rfl⟩

end

/-- What is left after a sweep is the end of the text. -/
theorem sweep_suffix {body : List Char → Option (List Part × List Char)}
    (leaves : ∀ text parts after, body text = some (parts, after) → after <:+ text)
    (text : List Char) : (sweep body text).2 <:+ text := by
  fun_induction sweep body text with
  | case1 text ended => exact List.suffix_rfl
  | case2 text parts after found advanced inductionHypothesis =>
    exact inductionHypothesis.trans (leaves text parts after found)
  | case3 text parts after found stuck => exact leaves text parts after found

/-- What a pattern leaves is the end of the text. -/
theorem find_suffix {pattern : Pattern} {text after : List Char} {parts : List Part}
    (found : pattern.find text = some (parts, after)) : after <:+ text := by
  induction pattern generalizing text parts after with
  | exactly expected =>
    obtain ⟨-, rfl⟩ := find_exactly_eq_some_iff.mp found
    exact List.suffix_append ..
  | one test =>
    obtain ⟨-, char, -, rfl⟩ := find_one_eq_some_iff.mp found
    exact List.suffix_cons ..
  | finish =>
    obtain ⟨-, rfl, rfl⟩ := find_finish_eq_some_iff.mp found
    exact List.suffix_rfl
  | both first second firstLeaves secondLeaves =>
    obtain ⟨_, _, _, foundFirst, foundSecond, -⟩ := find_both_eq_some_iff.mp found
    exact (secondLeaves foundSecond).trans (firstLeaves foundFirst)
  | either first second firstLeaves secondLeaves =>
    rcases find_either_eq_some_iff.mp found with foundFirst | ⟨-, foundSecond⟩
    · exact firstLeaves foundFirst
    · exact secondLeaves foundSecond
  | many body bodyLeaves =>
    have swept := sweep_suffix (fun _ _ _ => bodyLeaves) text
    rwa [find_many_eq_some_iff.mp found] at swept
  | maybe body bodyLeaves =>
    rcases find_maybe_eq_some_iff.mp found with foundBody | ⟨-, -, rfl⟩
    · exact bodyLeaves foundBody
    · exact List.suffix_rfl
  | notBefore body _ =>
    obtain ⟨-, -, rfl⟩ := find_notBefore_eq_some_iff.mp found
    exact List.suffix_rfl
  | named rule body bodyLeaves =>
    obtain ⟨_, foundBody, -⟩ := find_named_eq_some_iff.mp found
    exact bodyLeaves foundBody

/-- A pattern without named parts in it. -/
def isSilent : Pattern → Bool
  | .both first second | .either first second => first.isSilent && second.isSilent
  | .many body | .maybe body => body.isSilent
  | .named .. => false
  | _ => true

/-- A silent pattern finds no parts. -/
theorem eq_nil_of_isSilent {pattern : Pattern} (silent : pattern.isSilent = true)
    {text after : List Char} {parts : List Part} (found : pattern.find text = some (parts, after)) :
    parts = [] := by
  induction pattern generalizing text parts after with
  | exactly expected => exact (find_exactly_eq_some_iff.mp found).1
  | one test => exact (find_one_eq_some_iff.mp found).1
  | finish => exact (find_finish_eq_some_iff.mp found).1
  | both first second firstSilent secondSilent =>
    obtain ⟨silentFirst, silentSecond⟩ := Bool.and_eq_true_iff.mp silent
    obtain ⟨_, _, _, foundFirst, foundSecond, rfl⟩ := find_both_eq_some_iff.mp found
    rw [firstSilent silentFirst foundFirst, secondSilent silentSecond foundSecond, List.append_nil]
  | either first second firstSilent secondSilent =>
    obtain ⟨silentFirst, silentSecond⟩ := Bool.and_eq_true_iff.mp silent
    rcases find_either_eq_some_iff.mp found with foundFirst | ⟨-, foundSecond⟩
    · exact firstSilent silentFirst foundFirst
    · exact secondSilent silentSecond foundSecond
  | many body bodySilent =>
    obtain rfl : _ = parts := congrArg Prod.fst (find_many_eq_some_iff.mp found)
    clear found
    fun_induction sweep body.find text with
    | case1 text ended => rfl
    | case2 text parts after found advanced inductionHypothesis =>
      rw [bodySilent silent found, List.nil_append, inductionHypothesis]
    | case3 text parts after found stuck => exact bodySilent silent found
  | maybe body bodySilent =>
    rcases find_maybe_eq_some_iff.mp found with foundBody | ⟨-, rfl, -⟩
    · exact bodySilent silent foundBody
    · rfl
  | notBefore body _ => exact (find_notBefore_eq_some_iff.mp found).2.1
  | named rule body _ => cases silent

end Pattern

section

variable {source : List Char}

/-- How far a place is into its source is told by what is left. -/
theorem Cursor.offset_add (cursor : Cursor source) :
    cursor.offset + Text.utf8Length cursor.rest = Text.utf8Length source := by
  obtain ⟨passed, whole, counted⟩ := cursor.reached
  have total := congrArg Text.utf8Length whole
  rwa [Text.utf8Length_append, counted] at total

/-- A place where one character less is left than at another is farther by that character. -/
theorem Cursor.offset_of_append {cursor after : Cursor source} {taken : List Char}
    (left : taken ++ after.rest = cursor.rest) :
    after.offset = cursor.offset + Text.utf8Length taken := by
  have before := cursor.offset_add
  have behind := after.offset_add
  rw [← left, Text.utf8Length_append] at before
  omega

/-- A place is farther exactly if less is left there. -/
theorem Cursor.offset_lt_iff {cursor after : Cursor source}
    (leaves : after.rest <:+ cursor.rest) :
    cursor.offset < after.offset ↔ after.rest.length < cursor.rest.length := by
  obtain ⟨taken, left⟩ := leaves
  have counted := congrArg List.length left
  rw [List.length_append] at counted
  rw [Cursor.offset_of_append left]
  by_cases nothing : taken = []
  · simp [nothing] at counted ⊢
    omega
  · have bytes := Text.utf8Length_pos nothing
    have characters := List.length_pos_iff.mpr nothing
    omega

/-- What an outcome tells apart from failures and places. -/
def Outcome.told (outcome : Outcome source) : Option (List Part × List Char) :=
  outcome.found?.map fun found => (found.1.map Node.part, found.2.rest)

/-- The characters of a node are those between the two places. -/
theorem Node.text_eq {cursor after : Cursor source} {taken : List Char} {rule : Rule}
    {children : List Node} (left : taken ++ after.rest = cursor.rest) :
    (Node.mk rule cursor.offset after.offset cursor.rest children).text = taken := by
  rw [text, Cursor.offset_of_append left, Nat.add_sub_cancel_left, ← left,
    Text.splitBytes_append]

/-- At a place where nothing is left there is no next character. -/
theorem Cursor.next?_eq_none {cursor : Cursor source} (ended : cursor.rest = []) :
    cursor.next? = none := by
  unfold next?
  split
  · rfl
  · next left => simp [ended] at left

/-- Where something is left, the next character is the first of it. -/
theorem Cursor.next?_eq_some {cursor : Cursor source} {char : Char} {rest : List Char}
    (left : cursor.rest = char :: rest) :
    ∃ after, cursor.next? = some (char, after) ∧ after.rest = rest := by
  unfold next?
  split
  · next ended => simp [ended] at left
  · next other others same =>
    obtain ⟨rfl, rfl⟩ := List.cons.inj (same.symm.trans left)
    exact ⟨_, rfl, rfl⟩

/-- Skipping characters succeeds exactly if they come next, and leaves the rest. -/
theorem Cursor.map_rest_skip? (cursor : Cursor source) (expected : List Char) :
    (cursor.skip? expected).map (·.rest)
      = if expected.isPrefixOf cursor.rest then some (cursor.rest.drop expected.length)
        else none := by
  induction expected generalizing cursor with
  | nil => simp [skip?]
  | cons char expected inductionHypothesis =>
    rw [skip?]
    cases left : cursor.rest with
    | nil => simp [Cursor.next?_eq_none left]
    | cons other rest =>
      obtain ⟨after, advanced, rfl⟩ := Cursor.next?_eq_some left
      rw [advanced]
      simp only [List.isPrefixOf_cons_cons, List.length_cons, List.drop_succ_cons]
      by_cases same : other = char
      · simp [same, inductionHypothesis]
      · simp [same, Ne.symm same]

/-- Matching as often as possible is sweeping. -/
theorem told_iterate {body : Matcher source}
    {find : List Char → Option (List Part × List Char)}
    (agrees : ∀ cursor failures, (body cursor failures).told = find cursor.rest)
    (leaves : ∀ text parts after, find text = some (parts, after) → after <:+ text)
    (cursor : Cursor source) (failures : Failures) (found : List (List Node)) :
    (iterate body cursor failures found).told
      = some (found.reverse.flatten.map Node.part ++ (sweep find cursor.rest).1,
          (sweep find cursor.rest).2) := by
  fun_induction iterate body cursor failures found with
  | case1 cursor failures found later ended =>
    have same := agrees cursor failures
    rw [ended] at same
    rw [sweep_of_none same.symm]
    simp [Outcome.told]
  | case2 cursor failures found later nodes after matched advanced inductionHypothesis =>
    have same := agrees cursor failures
    rw [matched] at same
    have less := (Cursor.offset_lt_iff (leaves _ _ _ same.symm)).mp advanced
    rw [sweep_of_some same.symm less, inductionHypothesis]
    simp
  | case3 cursor failures found later nodes after matched stuck =>
    have same := agrees cursor failures
    rw [matched] at same
    have notLess := (not_congr (Cursor.offset_lt_iff (leaves _ _ _ same.symm))).mp stuck
    rw [sweep, ← same]
    simp [Outcome.told, notLess]

/-- A pattern matches at a place what it finds in the text that is left there. -/
theorem Pattern.told_run (pattern : Pattern) (cursor : Cursor source) (failures : Failures) :
    (pattern.run cursor failures).told = pattern.find cursor.rest := by
  induction pattern generalizing cursor failures with
  | exactly expected =>
    have skipped := cursor.map_rest_skip? expected
    have told : (Outcome.mk failures ((cursor.skip? expected).map fun after => ([], after))).told
        = ((cursor.skip? expected).map (·.rest)).map fun rest => ([], rest) := by
      simp only [Outcome.told, Option.map_map]
      rfl
    rw [run, told, skipped, find]
    split <;> rfl
  | one test =>
    rw [run]
    cases left : cursor.rest with
    | nil => simp [Cursor.next?_eq_none left, Outcome.told, find]
    | cons char rest =>
      obtain ⟨after, advanced, rfl⟩ := Cursor.next?_eq_some left
      simp only [advanced, Outcome.told, find]
      by_cases passes : test char = true <;> simp [passes]
  | finish =>
    rw [run, find]
    cases left : cursor.rest <;> simp [Outcome.told, left]
  | both first second firstAgrees secondAgrees =>
    have same := firstAgrees cursor failures
    rw [run, find, ← same]
    rcases first.run cursor failures with ⟨failures, _ | ⟨nodes, middle⟩⟩
    · rfl
    · have sameLater := secondAgrees middle failures
      simp only [Outcome.told, Option.map_some, Option.bind_eq_bind, Option.bind_some]
      rw [← sameLater]
      rcases second.run middle failures with ⟨failures, _ | ⟨more, after⟩⟩
      · rfl
      · simp [Outcome.told]
  | either first second firstAgrees secondAgrees =>
    have same := firstAgrees cursor failures
    rw [run, find, ← same]
    rcases first.run cursor failures with ⟨failures, _ | ⟨nodes, after⟩⟩
    · exact secondAgrees cursor failures
    · rfl
  | many body bodyAgrees =>
    rw [run, find, told_iterate bodyAgrees fun _ _ _ => find_suffix]
    simp
  | maybe body bodyAgrees =>
    have same := bodyAgrees cursor failures
    rw [run, find, ← same]
    rcases body.run cursor failures with ⟨failures, _ | ⟨nodes, after⟩⟩ <;> rfl
  | notBefore body bodyAgrees =>
    have same := bodyAgrees cursor failures
    rw [run, find, ← same]
    rcases body.run cursor failures with ⟨failures, _ | ⟨nodes, after⟩⟩ <;> rfl
  | named rule body bodyAgrees =>
    have same := bodyAgrees cursor failures
    rw [run, find, ← same]
    rcases ran : body.run cursor failures with ⟨failures, _ | ⟨nodes, after⟩⟩
    · rfl
    · rw [ran] at same
      obtain ⟨taken, left⟩ := find_suffix same.symm
      have between : cursor.rest.take (cursor.rest.length - after.rest.length) = taken := by
        simp [← left]
      simp [Outcome.told, Node.part, Node.text_eq left, between]

end

end Source

end Nonlocal
