import Mathlib.Logic.Relation
import Nonlocal.Proofs.Source.Matched

/-!
# Numerals that cannot be used

A flaw is an integer that is no word, or a fraction with zero below, together with what is
wrong with it. The flaws inside a node are those of the parts anywhere inside it. They come
in the order in which their literals begin; an integer that begins a fraction comes before
the fraction. Listing the flaws of a node behind those of the nodes inside it gives this
order: an integer has no parts, and the second integer of a fraction is not too large if it
is zero.
-/

namespace Nonlocal.Source

variable {source : List Char} {node inner : Node}

/-- A part is somewhere inside a node, or is the node. -/
def Node.Contains : Node → Node → Prop :=
  Relation.ReflTransGen fun outer inner => inner ∈ outer.children

/-- A literal and what is wrong with it. -/
structure Flaw where
  literal : Node
  issue : NumberIssue

namespace Flaw

/-- What is said of the literal is so. -/
inductive Genuine : Flaw → Prop where
  | tooLarge {integer : Node} (isInteger : integer.rule = .integer)
      (large : 2 ^ 64 ≤ Decimal.ofDigits integer.text) : Genuine ⟨integer, .tooLarge⟩
  | zeroDenominator {fraction numerator denominator : Node}
      (isFraction : fraction.rule = .fraction)
      (parts : fraction.children = [numerator, denominator])
      (zero : Decimal.ofDigits denominator.text = 0) : Genuine ⟨fraction, .zeroDenominator⟩

/-- A flaw comes before another in the text. Of an integer and a fraction that begin at the same
place the integer comes first. -/
def Before (first second : Flaw) : Prop :=
  first.literal.start < second.literal.start
    ∨ first.literal.start = second.literal.start
      ∧ first.issue = .tooLarge ∧ second.issue = .zeroDenominator

/-- The error for a flaw. -/
def error (flaw : Flaw) : ParseError :=
  .invalidNumber flaw.literal.text flaw.issue flaw.literal.span

/-- Of two flaws not each comes before the other. -/
theorem Before.asymm {first second : Flaw} (before : first.Before second) :
    ¬ second.Before first := by
  rintro (behind | ⟨together, large, -⟩)
  · rcases before with ahead | ⟨together, -⟩ <;> omega
  · rcases before with ahead | ⟨-, -, zero⟩
    · omega
    · cases large.symm.trans zero

end Flaw

/-- A node has a flaw if its literal is somewhere inside the node. -/
def Node.Has (node : Node) (flaw : Flaw) : Prop := node.Contains flaw.literal ∧ flaw.Genuine

/-- The flaw of a node that comes before all its others. -/
def Node.FirstFlaw (node : Node) (flaw : Flaw) : Prop :=
  node.Has flaw ∧ ∀ other, node.Has other → other = flaw ∨ flaw.Before other

/-- What is wrong with the literal that a node is. -/
def Node.ownFlaws (node : Node) : List Flaw :=
  match node.rule, node.children with
  | .integer, _ => if 2 ^ 64 ≤ Decimal.ofDigits node.text then [⟨node, .tooLarge⟩] else []
  | .fraction, [_, denominator] =>
    if Decimal.ofDigits denominator.text = 0 then [⟨node, .zeroDenominator⟩] else []
  | _, _ => []

/-- The flaws of a node, those of the nodes inside it first. -/
def Node.flaws : Node → List Flaw
  | node@(.mk _ _ _ _ children) => children.flatMap Node.flaws ++ node.ownFlaws

namespace Node

/-- The flaws of a node are those of the nodes inside it and its own. -/
theorem flaws_eq (node : Node) : node.flaws = node.children.flatMap flaws ++ node.ownFlaws := by
  obtain ⟨rule, start, stop, onward, children⟩ := node
  rw [flaws]
  rfl

/-- An integer may be too large. -/
theorem ownFlaws_of_integer (isInteger : node.rule = .integer) :
    node.ownFlaws = if 2 ^ 64 ≤ Decimal.ofDigits node.text then [⟨node, .tooLarge⟩] else [] := by
  simp only [ownFlaws, isInteger]

/-- A fraction may have zero below. -/
theorem ownFlaws_of_fraction {numerator denominator : Node} (isFraction : node.rule = .fraction)
    (parts : node.children = [numerator, denominator]) :
    node.ownFlaws
      = if Decimal.ofDigits denominator.text = 0 then [⟨node, .zeroDenominator⟩] else [] := by
  simp only [ownFlaws, isFraction, parts]

/-- The own flaws of a node are the flaws whose literal it is. -/
theorem mem_ownFlaws {flaw : Flaw} :
    flaw ∈ node.ownFlaws ↔ node = flaw.literal ∧ flaw.Genuine := by
  constructor
  · intro member
    unfold ownFlaws at member
    split at member
    · next isInteger =>
      split at member
      · next large =>
        obtain rfl := List.mem_singleton.mp member
        exact ⟨rfl, .tooLarge isInteger large⟩
      · cases member
    · next isFraction parts =>
      split at member
      · next zero =>
        obtain rfl := List.mem_singleton.mp member
        exact ⟨rfl, .zeroDenominator isFraction parts zero⟩
      · cases member
    · cases member
  · rintro ⟨rfl, genuine⟩
    cases genuine with
    | tooLarge isInteger large =>
      rw [ownFlaws_of_integer isInteger, if_pos large]
      exact List.mem_cons_self
    | zeroDenominator isFraction parts zero =>
      rw [ownFlaws_of_fraction isFraction parts, if_pos zero]
      exact List.mem_cons_self

/-- A node has at most one flaw of its own. -/
theorem pairwise_ownFlaws (node : Node) : node.ownFlaws.Pairwise Flaw.Before := by
  unfold ownFlaws
  split
  · split <;> simp
  · split <;> simp
  · exact .nil

/-- All flaws of a node are listed, and nothing else. -/
theorem mem_flaws {flaw : Flaw} : flaw ∈ node.flaws ↔ node.Has flaw := by
  induction node using flaws.induct with
  | case1 rule start stop onward children inductionHypothesis =>
    rw [flaws_eq, List.mem_append, mem_ownFlaws, List.mem_flatMap, Has, Contains,
      Relation.ReflTransGen.cases_head_iff, or_and_right, or_comm]
    refine or_congr_right ?_
    constructor
    · rintro ⟨child, member, inChild⟩
      obtain ⟨contains, genuine⟩ := (inductionHypothesis child member).mp inChild
      exact ⟨⟨child, member, contains⟩, genuine⟩
    · rintro ⟨⟨child, member, contains⟩, genuine⟩
      exact ⟨child, member, (inductionHypothesis child member).mpr ⟨contains, genuine⟩⟩

/-- A node that is neither an integer nor a fraction has the flaws of the nodes inside it. -/
theorem flaws_of_composed (composed : node.rule ∉ [.integer, .fraction]) :
    node.flaws = node.children.flatMap flaws := by
  have none : node.ownFlaws = [] := by
    unfold ownFlaws
    split
    · next isInteger => exact absurd (by simp [isInteger]) composed
    · next isFraction _ => exact absurd (by simp [isFraction]) composed
    · rfl
  rw [flaws_eq, none, List.append_nil]

/-- Such a node has no flaws if no node inside it has any. -/
theorem flaws_eq_nil (composed : node.rule ∉ [.integer, .fraction])
    (none : ∀ child ∈ node.children, child.flaws = []) : node.flaws = [] := by
  rw [flaws_of_composed composed, List.flatMap_eq_nil_iff]
  exact none

/-- A node with nothing inside it has its own flaws. -/
theorem flaws_of_leaf (leaf : node.children = []) : node.flaws = node.ownFlaws := by
  rw [flaws_eq, leaf, List.flatMap_nil, List.nil_append]

/-- What is anywhere inside a node that has been found has been found, between the ends of the
node. -/
theorem Found.contains (found : node.Found source) (contains : node.Contains inner) :
    inner.Found source ∧ node.start ≤ inner.start ∧ inner.stop ≤ node.stop := by
  induction contains with
  | refl => exact ⟨found, Nat.le_refl _, Nat.le_refl _⟩
  | tail _ member inductionHypothesis =>
    obtain ⟨outer, begins, ends⟩ := inductionHypothesis
    obtain ⟨-, later, earlier⟩ := outer.placed.inside.placed member
    exact ⟨outer.child member, Nat.le_trans begins later, Nat.le_trans earlier ends⟩

/-- An integer has at least one digit. -/
theorem Found.start_lt_stop (found : node.Found source) (isInteger : node.rule = .integer) :
    node.start < node.stop := by
  obtain ⟨after, inText⟩ := found.placed.found
  rw [isInteger] at inText
  obtain ⟨children, isDigits, same⟩ := Pattern.find_named_eq_some_iff.mp inText
  obtain ⟨_, -, digits, text⟩ := Language.find_digits_eq_some_iff.mp isDigits
  refine found.placed.slices.start_lt_stop ?_
  rw [List.append_cancel_right text]
  exact digits.nonempty

/-- A flaw takes place inside its node. -/
theorem Found.within (found : node.Found source) {flaw : Flaw} (has : node.Has flaw) :
    node.start ≤ flaw.literal.start ∧ flaw.literal.start < flaw.literal.stop
      ∧ flaw.literal.stop ≤ node.stop := by
  obtain ⟨contains, genuine⟩ := has
  obtain ⟨literal, begins, ends⟩ := found.contains contains
  refine ⟨begins, ?_, ends⟩
  cases genuine with
  | tooLarge isInteger => exact literal.start_lt_stop isInteger
  | zeroDenominator isFraction parts =>
    obtain ⟨numerator, denominator, both, isInteger, -, together⟩ :=
      literal.matched.fraction isFraction
    have first : numerator ∈ _ := both ▸ List.mem_cons_self
    have nonempty := (literal.child first).start_lt_stop isInteger
    have ahead := (literal.placed.inside.placed first).2.2
    omega

/-- All that can be wrong with an integer is that it is too large. -/
theorem Found.eq_of_integer (found : node.Found source) (isInteger : node.rule = .integer)
    {flaw : Flaw} (has : node.Has flaw) :
    flaw = ⟨node, .tooLarge⟩ ∧ 2 ^ 64 ≤ Decimal.ofDigits node.text := by
  have own := mem_flaws.mpr has
  rw [flaws_of_leaf (found.matched.integer isInteger), ownFlaws_of_integer isInteger] at own
  split at own
  · next large => exact ⟨List.mem_singleton.mp own, large⟩
  · cases own

/-- What is wrong inside a node comes before what is wrong with the node. -/
theorem Found.before_own (found : node.Found source) {first second : Flaw}
    (member : inner ∈ node.children) (has : inner.Has first) (own : second ∈ node.ownFlaws) :
    first.Before second := by
  obtain ⟨rfl, genuine⟩ := mem_ownFlaws.mp own
  cases genuine with
  | tooLarge isInteger =>
    rw [found.matched.integer isInteger] at member
    cases member
  | @zeroDenominator fraction numerator denominator isFraction parts zero =>
    obtain ⟨_, _, both, isNumerator, isDenominator, together⟩ := found.matched.fraction isFraction
    obtain ⟨rfl, others⟩ := List.cons.inj (parts.symm.trans both)
    obtain ⟨rfl, -⟩ := List.cons.inj others
    have among : inner ∈ [numerator, denominator] := parts ▸ member
    rcases List.mem_pair.mp among with rfl | rfl
    · obtain ⟨rfl, -⟩ := (found.child member).eq_of_integer isNumerator has
      exact .inr ⟨together, rfl, rfl⟩
    · -- A number that is too large is not zero.
      obtain ⟨-, large⟩ := (found.child member).eq_of_integer isDenominator has
      omega

/-- The flaws of a node are listed in their order. -/
theorem Found.flaws_before (found : node.Found source) : node.flaws.Pairwise Flaw.Before := by
  induction node using flaws.induct with
  | case1 rule start stop onward children inductionHypothesis =>
    rw [flaws_eq]
    refine List.pairwise_append.mpr ⟨List.pairwise_flatMap.mpr
      ⟨fun child member => inductionHypothesis child member (found.child member), ?_⟩,
      pairwise_ownFlaws _, fun first inside second own => ?_⟩
    · refine found.placed.inside.pairwise.imp_of_mem
        fun isChild isNext apart first inFirst second inSecond => ?_
      have earlier := (found.child isChild).within (mem_flaws.mp inFirst)
      have later := (found.child isNext).within (mem_flaws.mp inSecond)
      exact .inl (by omega)
    · obtain ⟨child, member, inChild⟩ := List.mem_flatMap.mp inside
      exact found.before_own member (mem_flaws.mp inChild) own

/-- The first flaw in the list is the one that comes before all others. -/
theorem Found.head?_flaws (found : node.Found source) {flaw : Flaw} :
    node.flaws.head? = some flaw ↔ node.FirstFlaw flaw := by
  simp only [FirstFlaw, ← mem_flaws]
  have ordered := found.flaws_before
  cases listed : node.flaws with
  | nil => simp
  | cons head rest =>
    rw [listed] at ordered
    obtain ⟨ahead, -⟩ := List.pairwise_cons.mp ordered
    constructor
    · intro same
      obtain rfl := Option.some.inj same
      exact ⟨List.mem_cons_self, fun other member =>
        (List.mem_cons.mp member).imp_right (ahead other)⟩
    · rintro ⟨member, least⟩
      rcases List.mem_cons.mp member with rfl | later
      · rfl
      · rcases least head List.mem_cons_self with rfl | before
        · rfl
        · exact absurd before (ahead flaw later).asymm

/-- A node that has a flaw has a first one. -/
theorem Found.exists_firstFlaw (found : node.Found source) {flaw : Flaw} (has : node.Has flaw) :
    ∃ first, node.FirstFlaw first := by
  obtain ⟨first, others, listed⟩ :=
    List.exists_cons_of_ne_nil (List.ne_nil_of_mem (mem_flaws.mpr has))
  exact ⟨first, found.head?_flaws.mp (by rw [listed]; rfl)⟩

end Node

end Nonlocal.Source
