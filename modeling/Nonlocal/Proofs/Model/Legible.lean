import Nonlocal.Model.Text
import Nonlocal.Proofs.Decimal.Plain

/-!
# The parts of commands are read back

If names are made of letters, digits and underscores only, then the texts of values,
guards, effects and branches say what is written. Every join has a mark that is in none of
the joined parts: the ampersand between equations, the colon after a weight, the plus sign
between branches. A single branch that is certain is written without its weight, and this
is all that is lost.
-/

namespace Nonlocal

variable {α : Type}

/-- Number types whose numbers are told apart by texts of plain characters. -/
class Readable (α : Type) [ScalarText α] : Prop where
  injective : Function.Injective (ScalarText.text : α → String)
  plain (number : α) :
    ∀ char ∈ (ScalarText.text number).toList, Decimal.Layout.isPlain char = true

instance : Readable Float where
  injective := Decimal.Layout.plain_text_injective
  plain _ := Decimal.Layout.isPlain_of_mem_text

/-- A name that is not empty and has letters, digits and underscores only. -/
structure Legible (name : String) : Prop where
  inhabited : name ≠ ""
  parts : ∀ char ∈ name.toList, Identifier.isPart char = true

/-- A character of another kind is not in a name. -/
theorem Legible.not_mem {name : String} (legible : Legible name) {mark : Char}
    (foreign : Identifier.isPart mark = false) : mark ∉ name.toList :=
  fun member => by simp [legible.parts mark member] at foreign

/-- A legible name has a first character, which is none of another kind. -/
theorem Legible.starts {name : String} (legible : Legible name) :
    ∃ first rest, name.toList = first :: rest ∧ Identifier.isPart first = true := by
  have nonempty : name.toList ≠ [] := fun empty => legible.inhabited (String.toList_inj.mp empty)
  obtain ⟨first, rest, whole⟩ := List.exists_cons_of_ne_nil nonempty
  exact ⟨first, rest, whole, legible.parts first (by simp [whole])⟩

section Values

/-- The text of an integer is its sign and its digits. -/
theorem Value.toList_int (value : Int) :
    (Value.int value).text.toList
      = (if value < 0 then ['-'] else []) ++ Nat.toDigits 10 value.natAbs := by
  cases value with
  | ofNat count =>
    have text : (Value.int (Int.ofNat count)).text = toString count := rfl
    rw [text, if_neg (by simp)]
    simp
  | negSucc count =>
    have text : (Value.int (Int.negSucc count)).text = "-" ++ toString (count + 1) := rfl
    simp [text]

/-- The text of an integer has digits and a sign. -/
theorem Value.mem_text_int {value : Int} {char : Char}
    (member : char ∈ (Value.int value).text.toList) : char.isDigit = true ∨ char = '-' := by
  rw [Value.toList_int, List.mem_append] at member
  rcases member with sign | digit
  · split at sign
    · exact .inr (List.mem_singleton.mp sign)
    · cases sign
  · exact .inl (Decimal.isDigit_toDigits _ char digit)

/-- Values have letters, digits and a sign. -/
theorem Value.mem_text {value : Value} {char : Char} (member : char ∈ value.text.toList) :
    Identifier.isPart char = true ∨ char = '-' := by
  cases value with
  | int value =>
    refine (Value.mem_text_int member).imp_left fun digit => ?_
    simp [Identifier.isPart, Char.isAlphanum, digit]
  | bool value =>
    have letters : ∀ char ∈ (Value.bool value).text.toList, Identifier.isPart char = true := by
      cases value <;> exact List.all_eq_true.mp (by decide)
    exact .inl (letters char member)

/-- Different integers have different texts. -/
theorem Value.int_text_injective {first second : Int}
    (same : (Value.int first).text = (Value.int second).text) : first = second := by
  have texts := congrArg String.toList same
  rw [Value.toList_int, Value.toList_int] at texts
  have unsigned (count : Nat) : '-' ∉ Nat.toDigits 10 count :=
    fun member => absurd (Decimal.isDigit_toDigits count '-' member) (by decide)
  split at texts <;> split at texts
  · have size := Decimal.toDigits_injective (List.append_cancel_left texts)
    omega
  · exact (unsigned _ (by rw [← List.nil_append (Nat.toDigits 10 _), ← texts]; simp)).elim
  · exact (unsigned _ (by rw [← List.nil_append (Nat.toDigits 10 _), texts]; simp)).elim
  · have size := Decimal.toDigits_injective (List.append_cancel_left texts)
    omega

/-- No integer is written like a truth value. -/
theorem Value.int_text_ne_bool (number : Int) (truth : Bool) :
    (Value.int number).text ≠ (Value.bool truth).text := by
  intro same
  have letter : ∃ char ∈ (Value.bool truth).text.toList, char.isDigit = false ∧ char ≠ '-' := by
    cases truth with
    | false => exact ⟨'f', by decide, by decide, by decide⟩
    | true => exact ⟨'t', by decide, by decide, by decide⟩
  obtain ⟨char, member, notDigit, notSign⟩ := letter
  rcases Value.mem_text_int (same ▸ member) with digit | sign
  · simp [notDigit] at digit
  · exact notSign sign

/-- Different values have different texts. -/
theorem Value.text_injective : Function.Injective Value.text := by
  intro first second same
  cases first with
  | int number =>
    cases second with
    | int other => rw [Value.int_text_injective same]
    | bool truth => exact (Value.int_text_ne_bool number truth same).elim
  | bool truth =>
    cases second with
    | int number => exact (Value.int_text_ne_bool number truth same.symm).elim
    | bool other => cases truth <;> cases other <;> first | rfl | simp [Value.text] at same

end Values

section Conjunctions

/-- The text of a variable and a value in a relation to it. -/
def Binding.written (relation : String) (binding : Binding) : String :=
  "(" ++ binding.name ++ relation ++ binding.value.text ++ ")"

/-- A guard is the conjunction of its equations. -/
theorem guardText_eq (guard : List Binding) :
    guardText guard = conjunction (guard.map (Binding.written " = ")) := rfl

/-- The effects of a branch are the conjunction of its assignments. -/
theorem updatesText_eq (updates : List Binding) :
    updatesText updates = conjunction (updates.map (Binding.written "' = ")) := rfl

/-- The characters of guards and effects. -/
def isFormula (char : Char) : Bool :=
  Identifier.isPart char || "()=&-' ".toList.contains char

/-- A relation between a variable and a value: it begins with a mark that is in no name, and
has no ampersand. -/
structure Relation (relation : String) : Prop where
  marked : ∃ mark after, relation.toList = mark :: after ∧ Identifier.isPart mark = false
  chars : ∀ char ∈ relation.toList, isFormula char = true
  single : '&' ∉ relation.toList

/-- The equality sign of a guard. -/
theorem relation_equation : Relation " = " :=
  ⟨⟨' ', ['=', ' '], rfl, by decide⟩, List.all_eq_true.mp (by decide), by decide⟩

/-- The prime and the equality sign of an effect. -/
theorem relation_update : Relation "' = " :=
  ⟨⟨'\'', [' ', '=', ' '], rfl, by decide⟩, List.all_eq_true.mp (by decide), by decide⟩

variable {relation : String} (related : Relation relation)

include related

/-- The characters of one equation or effect. -/
theorem Binding.mem_written {binding : Binding} (legible : Legible binding.name) {char : Char}
    (member : char ∈ (binding.written relation).toList) :
    isFormula char = true ∧ char ≠ '&' := by
  have part {char : Char} (named : Identifier.isPart char = true) :
      isFormula char = true ∧ char ≠ '&' := by
    refine ⟨by simp [isFormula, named], ?_⟩
    rintro rfl
    exact absurd named (by decide)
  simp only [Binding.written, String.toList_append, List.mem_append] at member
  rcases member with (((opening | name) | between) | value) | closing
  · obtain rfl := List.mem_singleton.mp opening
    decide
  · exact part (legible.parts char name)
  · refine ⟨related.chars char between, ?_⟩
    rintro rfl
    exact related.single between
  · rcases Value.mem_text value with named | rfl
    · exact part named
    · decide
  · obtain rfl := List.mem_singleton.mp closing
    decide

/-- A variable and its value are read back. -/
theorem Binding.written_injective {first second : Binding} (legible : Legible first.name)
    (legible' : Legible second.name)
    (same : first.written relation = second.written relation) : first = second := by
  obtain ⟨mark, after, begins, foreign⟩ := related.marked
  have texts := congrArg String.toList same
  simp only [Binding.written, String.toList_append, begins, List.append_assoc,
    List.cons_append] at texts
  obtain ⟨names, rest⟩ := Text.cut_unique (legible.not_mem foreign) (legible'.not_mem foreign)
    (List.append_cancel_left texts)
  have values := List.append_cancel_right (List.append_cancel_left rest)
  obtain ⟨name, value⟩ := first
  obtain ⟨name', value'⟩ := second
  rw [Binding.mk.injEq]
  exact ⟨String.toList_inj.mp names, Value.text_injective (String.toList_inj.mp values)⟩

/-- The characters of a conjunction. -/
theorem mem_conjunction {bindings : List Binding}
    (legible : ∀ binding ∈ bindings, Legible binding.name) {char : Char}
    (member : char ∈ (conjunction (bindings.map (Binding.written relation))).toList) :
    isFormula char = true := by
  unfold conjunction at member
  split at member
  · have word : ∀ char ∈ "true".toList, isFormula char = true :=
      List.all_eq_true.mp (by decide)
    exact word char member
  · rcases Text.mem_joined member with between | ⟨part, present, inside⟩
    · have separator : ∀ char ∈ " & ".toList, isFormula char = true :=
        List.all_eq_true.mp (by decide)
      exact separator char between
    · obtain ⟨binding, own, rfl⟩ := List.mem_map.mp present
      exact (Binding.mem_written related (legible binding own) inside).1

omit related in
/-- Equations and effects are joined by ampersands. -/
theorem conjunction_cons (binding : Binding) (rest : List Binding) :
    conjunction ((binding :: rest).map (Binding.written relation))
      = " & ".intercalate ((binding :: rest).map (Binding.written relation)) := rfl

omit related in
/-- A conjunction that is not empty has a bracket. -/
theorem bracket_mem_conjunction {binding : Binding} {bindings : List Binding}
    (member : binding ∈ bindings) :
    '(' ∈ (conjunction (bindings.map (Binding.written relation))).toList := by
  cases bindings with
  | nil => cases member
  | cons first rest =>
    rw [conjunction_cons]
    exact Text.mem_joined_of_mem (List.mem_map_of_mem member) (by simp [Binding.written])

omit related in
/-- No conjunction has an empty text. -/
theorem conjunction_ne_empty (bindings : List Binding) :
    conjunction (bindings.map (Binding.written relation)) ≠ "" := by
  cases bindings with
  | nil =>
    have word : "true" ≠ "" := by decide
    exact word
  | cons binding rest =>
    intro empty
    have bracket : '(' ∈ (conjunction ((binding :: rest).map (Binding.written relation))).toList :=
      bracket_mem_conjunction List.mem_cons_self
    rw [empty] at bracket
    cases bracket

/-- A conjunction is read back. -/
theorem conjunction_injective {first second : List Binding}
    (legible : ∀ binding ∈ first, Legible binding.name)
    (legible' : ∀ binding ∈ second, Legible binding.name)
    (same : conjunction (first.map (Binding.written relation))
      = conjunction (second.map (Binding.written relation))) : first = second := by
  -- Only a conjunction without parts has no bracket.
  have bare : '(' ∉ (conjunction (([] : List Binding).map (Binding.written relation))).toList := by
    change '(' ∉ "true".toList
    decide
  have separate {bindings : List Binding} (legible : ∀ binding ∈ bindings, Legible binding.name) :
      ∀ part ∈ bindings.map (Binding.written relation), '&' ∉ part.toList := by
    intro part present member
    obtain ⟨binding, own, rfl⟩ := List.mem_map.mp present
    exact (Binding.mem_written related (legible binding own) member).2 rfl
  cases first with
  | nil =>
    cases second with
    | nil => rfl
    | cons binding rest => exact (bare (same ▸ bracket_mem_conjunction List.mem_cons_self)).elim
  | cons binding rest =>
    cases second with
    | nil => exact (bare (same ▸ bracket_mem_conjunction List.mem_cons_self)).elim
    | cons other others =>
      rw [conjunction_cons, conjunction_cons] at same
      have parts := Text.joined_injective [' '] '&' [' '] rfl
        (by decide) (by simp) (by simp) (separate legible) (separate legible') same
      have read := Text.forall₂_of_map_eq parts fun binding own other own' =>
        Binding.written_injective related (legible binding own) (legible' other own')
      exact List.forall₂_eq_eq_eq ▸ read

end Conjunctions

/-- A character of another kind is not in a guard. -/
theorem not_mem_guardText {guard : List Binding}
    (legible : ∀ equation ∈ guard, Legible equation.name) {mark : Char}
    (foreign : isFormula mark = false) : mark ∉ (guardText guard).toList := by
  intro member
  simp [mem_conjunction relation_equation legible (guardText_eq guard ▸ member)] at foreign

/-- A character of another kind is not in the effects of a branch. -/
theorem not_mem_updatesText {updates : List Binding}
    (legible : ∀ update ∈ updates, Legible update.name)
    {mark : Char} (foreign : isFormula mark = false) : mark ∉ (updatesText updates).toList := by
  intro member
  simp [mem_conjunction relation_update legible (updatesText_eq updates ▸ member)] at foreign

section Branches

variable [ScalarText α] [Readable α]

/-- The characters of weights. -/
def isWeight (char : Char) : Bool := Decimal.Layout.isPlain char || char == '/'

omit [Readable α] in
/-- The text of a ratio as characters. -/
theorem Weight.toList_ratio (numerator denominator : Nat) :
    (Weight.ratio numerator denominator : Weight α).text.toList
      = Nat.toDigits 10 numerator ++ '/' :: Nat.toDigits 10 denominator := by
  have text : (Weight.ratio numerator denominator : Weight α).text
      = toString numerator ++ "/" ++ toString denominator := rfl
  simp [text]

/-- A weight has no other characters. -/
theorem Weight.mem_text {weight : Weight α} {char : Char} (member : char ∈ weight.text.toList) :
    isWeight char = true := by
  have counted {count : Nat} (digit : char ∈ Nat.toDigits 10 count) : isWeight char = true := by
    simp [isWeight, Decimal.Layout.isPlain, Char.isAlphanum,
      Decimal.isDigit_toDigits count char digit]
  cases weight with
  | ratio numerator denominator =>
    rw [Weight.toList_ratio, List.mem_append, List.mem_cons] at member
    rcases member with above | rfl | below
    · exact counted above
    · decide
    · exact counted below
  | decimal probability =>
    simp [isWeight, Readable.plain probability char member]

/-- Different weights have different texts. -/
theorem Weight.text_injective : Function.Injective (Weight.text : Weight α → String) := by
  have undivided (count : Nat) : '/' ∉ Nat.toDigits 10 count :=
    fun member => absurd (Decimal.isDigit_toDigits count '/' member) (by decide)
  have plain (probability : α) : '/' ∉ (Weight.decimal probability : Weight α).text.toList :=
    fun member => absurd (Readable.plain probability '/' member) (by decide)
  intro first second same
  cases first with
  | ratio numerator denominator =>
    cases second with
    | ratio numerator' denominator' =>
      have texts := congrArg String.toList same
      rw [Weight.toList_ratio, Weight.toList_ratio] at texts
      obtain ⟨above, below⟩ := Text.cut_unique (undivided _) (undivided _) texts
      rw [Decimal.toDigits_injective above, Decimal.toDigits_injective below]
    | decimal probability =>
      exact (plain probability (by rw [← same, Weight.toList_ratio]; simp)).elim
  | decimal probability =>
    cases second with
    | ratio numerator denominator =>
      exact (plain probability (by rw [same, Weight.toList_ratio]; simp)).elim
    | decimal other => rw [Readable.injective same]

omit [Readable α] in
/-- The text of a branch as characters. -/
theorem Branch.toList_text (branch : Branch α) :
    branch.text.toList
      = (branch.weight.text.toList ++ [' '])
        ++ ':' :: ' ' :: (updatesText branch.updates).toList := by
  have text : branch.text = branch.weight.text ++ " : " ++ updatesText branch.updates := rfl
  simp [text]

/-- A branch has the characters of its weight and of its effects, and a colon. -/
theorem Branch.not_mem_text {branch : Branch α}
    (legible : ∀ update ∈ branch.updates, Legible update.name) {mark : Char}
    (foreign : isFormula mark = false) (foreign' : isWeight mark = false) (other : mark ≠ ':') :
    mark ∉ branch.text.toList := by
  intro member
  rw [Branch.toList_text, List.mem_append, List.mem_append, List.mem_cons (b := ':')] at member
  have space : mark ≠ ' ' := by
    rintro rfl
    exact absurd foreign (by decide)
  rcases member with (inWeight | isSpace) | (isColon | inUpdates)
  · simp [Weight.mem_text inWeight] at foreign'
  · exact space (List.mem_singleton.mp isSpace)
  · exact other isColon
  · rcases List.mem_cons.mp inUpdates with isSpace | inUpdates
    · exact space isSpace
    · exact not_mem_updatesText legible foreign inUpdates

/-- A branch is read back. -/
theorem Branch.text_injective {first second : Branch α}
    (legible : ∀ update ∈ first.updates, Legible update.name)
    (legible' : ∀ update ∈ second.updates, Legible update.name)
    (same : first.text = second.text) : first = second := by
  have texts := congrArg String.toList same
  rw [Branch.toList_text, Branch.toList_text] at texts
  have colon (weight : Weight α) : ':' ∉ weight.text.toList ++ [' '] := by
    rw [List.mem_append, not_or]
    exact ⟨fun member => absurd (Weight.mem_text member) (by decide), by decide⟩
  obtain ⟨weights, updates⟩ := Text.cut_unique (colon _) (colon _) texts
  obtain ⟨weight, effects⟩ := first
  obtain ⟨weight', effects'⟩ := second
  rw [Branch.mk.injEq]
  refine ⟨Weight.text_injective (String.toList_inj.mp (List.append_cancel_right weights)), ?_⟩
  refine conjunction_injective relation_update legible legible' (String.toList_inj.mp ?_)
  exact (List.cons.inj updates).2

variable [One α] [BEq α]

/-- Branches that are written alike: they are the same, or there is one on each side, both
are certain, and only their weights differ. -/
inductive Branch.Alike : List (Branch α) → List (Branch α) → Prop where
  | same (branches : List (Branch α)) : Alike branches branches
  | certain {first second : Branch α} (sure : first.weight.isCertain = true)
      (sure' : second.weight.isCertain = true) (updates : first.updates = second.updates) :
      Alike [first] [second]

/-- There is one branch, and it is certain. -/
def Branch.Lone (branches : List (Branch α)) : Prop :=
  ∃ only, branches = [only] ∧ only.weight.isCertain = true

omit [Readable α] in
/-- All branches have their weights unless there is only a certain one. -/
theorem branchesText_of_not_lone {branches : List (Branch α)} (several : ¬Branch.Lone branches) :
    branchesText branches = " + ".intercalate (branches.map Branch.text) := by
  unfold branchesText
  split
  · next only =>
    rw [if_neg fun sure => several ⟨only, rfl, sure⟩]
    simp
  · rfl

omit [Readable α] in
/-- A lone certain branch is written as its effects. -/
theorem branchesText_of_sure {only : Branch α} (sure : only.weight.isCertain = true) :
    branchesText [only] = updatesText only.updates := if_pos sure

omit [Readable α] in
/-- Branches with weights have a colon. -/
theorem colon_mem_branchesText {branches : List (Branch α)} (several : ¬Branch.Lone branches)
    {branch : Branch α} (member : branch ∈ branches) : ':' ∈ (branchesText branches).toList := by
  rw [branchesText_of_not_lone several]
  refine Text.mem_joined_of_mem (List.mem_map_of_mem member) ?_
  rw [Branch.toList_text]
  simp

omit [Readable α] in
/-- Whether there is a lone certain branch is read back. -/
theorem lone_of_branchesText_eq {first second : List (Branch α)}
    (legible : ∀ branch ∈ first, ∀ update ∈ branch.updates, Legible update.name)
    (same : branchesText first = branchesText second) (lone : Branch.Lone first) :
    Branch.Lone second := by
  by_contra several
  obtain ⟨only, rfl, sure⟩ := lone
  rw [branchesText_of_sure sure] at same
  cases second with
  | nil => exact conjunction_ne_empty only.updates same
  | cons branch rest =>
    have colon := colon_mem_branchesText several List.mem_cons_self
    rw [← same] at colon
    exact not_mem_updatesText (legible only List.mem_cons_self) (by decide) colon

/-- Branches are read back, but for the weight of a lone certain one. -/
theorem branchesText_injective {first second : List (Branch α)}
    (legible : ∀ branch ∈ first, ∀ update ∈ branch.updates, Legible update.name)
    (legible' : ∀ branch ∈ second, ∀ update ∈ branch.updates, Legible update.name)
    (same : branchesText first = branchesText second) : Branch.Alike first second := by
  by_cases lone : Branch.Lone first
  · obtain ⟨other, rfl, sure'⟩ := lone_of_branchesText_eq legible same lone
    obtain ⟨only, rfl, sure⟩ := lone
    rw [branchesText_of_sure sure, branchesText_of_sure sure'] at same
    exact .certain sure sure' (conjunction_injective relation_update
      (legible only List.mem_cons_self) (legible' other List.mem_cons_self) same)
  · have lone' : ¬Branch.Lone second :=
      fun lone' => lone (lone_of_branchesText_eq legible' same.symm lone')
    have empty : ':' ∉ (branchesText ([] : List (Branch α))).toList := by
      simp [branchesText]
    cases first with
    | nil =>
      cases second with
      | nil => exact .same []
      | cons branch rest =>
        exact (empty (same ▸ colon_mem_branchesText lone' List.mem_cons_self)).elim
    | cons branch rest =>
      cases second with
      | nil => exact (empty (same ▸ colon_mem_branchesText lone List.mem_cons_self)).elim
      | cons other others =>
        have separate {branches : List (Branch α)}
            (legible : ∀ branch ∈ branches, ∀ update ∈ branch.updates, Legible update.name) :
            ∀ part ∈ branches.map Branch.text, '+' ∉ part.toList := by
          intro part present
          obtain ⟨branch, own, rfl⟩ := List.mem_map.mp present
          exact Branch.not_mem_text (legible branch own) (by decide) (by decide) (by decide)
        rw [branchesText_of_not_lone lone, branchesText_of_not_lone lone'] at same
        have parts := Text.joined_injective [' '] '+' [' '] rfl
          (by decide) (by simp) (by simp) (separate legible) (separate legible') same
        have read := Text.forall₂_of_map_eq parts fun branch own other own' =>
          Branch.text_injective (legible branch own) (legible' other own')
        rw [List.forall₂_eq_eq_eq] at read
        exact read ▸ .same _

/-- No line feed is in the text of branches. -/
theorem not_mem_branchesText {branches : List (Branch α)}
    (legible : ∀ branch ∈ branches, ∀ update ∈ branch.updates, Legible update.name) :
    '\n' ∉ (branchesText branches).toList := by
  by_cases lone : Branch.Lone branches
  · obtain ⟨only, rfl, sure⟩ := lone
    rw [branchesText_of_sure sure]
    exact not_mem_updatesText (legible only List.mem_cons_self) (by decide)
  · intro member
    rw [branchesText_of_not_lone lone] at member
    rcases Text.mem_joined member with between | ⟨part, present, inside⟩
    · exact absurd between (by decide)
    · obtain ⟨branch, own, rfl⟩ := List.mem_map.mp present
      exact Branch.not_mem_text (legible branch own) (by decide) (by decide) (by decide) inside

end Branches

end Nonlocal
