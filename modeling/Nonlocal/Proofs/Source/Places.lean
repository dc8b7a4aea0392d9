import Nonlocal.Proofs.Source.Reading
import Nonlocal.Proofs.Text.Sliced

/-!
# Where the parts of a source lie

The nodes that matching yields lie in the source as they say: the characters of each are
those in its bytes, the nodes inside it lie in these bytes, and each begins where the one
before it has ended or later. The pattern of its kind finds the node's part in the text from
its beginning and leaves what is after its end. All this is kept by each way of putting
patterns together, also where a repetition goes on and where an alternative is tried after
another has failed. The farthest failure on record is between characters, too.
-/

namespace Nonlocal.Source

open Text (Boundary Slices utf8Length)

/-- The pattern of each kind of parts. -/
def Grammar.pattern : Rule → Pattern
  | .endOfInput => .named .endOfInput .finish
  | .program => program
  | .inputs => inputs
  | .outputs => outputs
  | .ranges => ranges
  | .names => names
  | .row => row
  | .probability => probability
  | .fraction => fraction
  | .number => number
  | .integer => integer
  | .inputWord => .named .inputWord (wholeWord "input")
  | .outputWord => .named .outputWord (wholeWord "output")
  | .rangeWord => .named .rangeWord (wholeWord "range")
  | .identifier => identifier

/-- All named patterns in a pattern are those of their kinds. -/
def Pattern.Follows : Pattern → Prop
  | .both first second | .either first second => first.Follows ∧ second.Follows
  | .many body | .maybe body | .notBefore body => body.Follows
  | .named rule body => Grammar.pattern rule = .named rule body ∧ body.Follows
  | .exactly _ | .one _ | .finish => True

/-- No kind has two patterns in the grammar. -/
theorem Grammar.follows_program : Grammar.program.Follows := by
  repeat' constructor

/-- Nodes lie one after another between two places of a source. -/
inductive Lies (source : List Char) : Nat → List Node → Nat → Prop where
  | nil {start stop : Nat} (ordered : start ≤ stop) : Lies source start [] stop
  | cons {node : Node} {nodes : List Node} {before after : List Char} {start stop : Nat}
      (later : start ≤ node.start) (whole : before ++ node.text ++ after = source)
      (starts : utf8Length before = node.start)
      (stops : utf8Length (before ++ node.text) = node.stop)
      (found : (Grammar.pattern node.rule).find (node.text ++ after) = some ([node.part], after))
      (inside : Lies source node.start node.children node.stop)
      (further : Lies source node.stop nodes stop) : Lies source start (node :: nodes) stop

/-- A node lies in a source where it says. -/
structure Node.Placed (source : List Char) (node : Node) : Prop where
  slices : Slices source node.span node.text
  found : ∃ after, (Grammar.pattern node.rule).find (node.text ++ after) = some ([node.part], after)
  inside : Lies source node.start node.children node.stop

namespace Lies

variable {source : List Char} {nodes more : List Node} {node : Node} {start middle stop : Nat}

/-- Nodes do not end before they begin. -/
theorem ordered (lies : Lies source start nodes stop) : start ≤ stop := by
  induction lies with
  | nil ordered => exact ordered
  | cons later _ starts stops _ _ _ _ goesOn =>
    rw [Text.utf8Length_append] at stops
    omega

/-- There may be room before the first node. -/
theorem of_le (lies : Lies source middle nodes stop) (room : start ≤ middle) :
    Lies source start nodes stop := by
  cases lies with
  | nil ordered => exact .nil (Nat.le_trans room ordered)
  | cons later whole starts stops found inside further =>
    exact .cons (Nat.le_trans room later) whole starts stops found inside further

/-- Nodes lie one after another if they do so in two portions. -/
theorem append (lies : Lies source start nodes middle) (further : Lies source middle more stop) :
    Lies source start (nodes ++ more) stop := by
  induction lies with
  | nil ordered => exact further.of_le ordered
  | cons later whole starts stops found inside _ _ inductionHypothesis =>
    exact .cons later whole starts stops found inside (inductionHypothesis further)

/-- Each of the nodes is placed, between the same two places. -/
theorem placed (lies : Lies source start nodes stop) (member : node ∈ nodes) :
    node.Placed source ∧ start ≤ node.start ∧ node.stop ≤ stop := by
  induction lies with
  | nil => cases member
  | @cons first others before after start stop later whole starts stops found inside further _
      inductionHypothesis =>
    rcases List.mem_cons.mp member with rfl | among
    · exact ⟨⟨⟨before, after, whole, starts, stops⟩, ⟨after, found⟩, inside⟩, later,
        further.ordered⟩
    · obtain ⟨isPlaced, behind, within⟩ := inductionHypothesis among
      rw [Text.utf8Length_append] at stops
      exact ⟨isPlaced, by omega, within⟩

/-- Each of the nodes ends before the next ones begin. -/
theorem pairwise (lies : Lies source start nodes stop) :
    nodes.Pairwise fun first second => first.stop ≤ second.start := by
  induction lies with
  | nil => exact .nil
  | cons _ _ _ _ _ _ further _ inductionHypothesis =>
    exact .cons (fun _ among => (further.placed among).2.1) inductionHypothesis

end Lies

/-- The nodes inside a node that is placed are placed. -/
theorem Node.Placed.child {source : List Char} {node child : Node} (placed : node.Placed source)
    (member : child ∈ node.children) : child.Placed source :=
  (placed.inside.placed member).1

section

variable {source : List Char} {cursor : Cursor source} {failures : Failures}

/-- A place that is reached is between characters. -/
theorem Cursor.boundary (cursor : Cursor source) : Boundary source cursor.offset := by
  obtain ⟨passed, whole, counted⟩ := cursor.reached
  exact ⟨passed, cursor.rest, whole, counted⟩

/-- A record of failures is for a place between characters if the records that it is made
from are. -/
theorem Failures.boundary_afterPart {before after : Failures} {rule : Rule} {offset : Nat}
    (inside : Boundary source after.offset) (here : Boundary source offset) :
    Boundary source (before.afterPart after rule offset).offset := by
  unfold afterPart
  split
  · exact inside
  · split
    · exact here
    · split
      · exact here
      · exact inside

/-- What an outcome says of places is right. -/
structure Outcome.Placed (outcome : Outcome source) (start : Nat) : Prop where
  failures : Boundary source outcome.failures.offset
  found : ∀ nodes after, outcome.found? = some (nodes, after) →
    Lies source start nodes after.offset

/-- Where nothing is taken the place is the same. -/
theorem Outcome.Placed.of_stay (boundary : Boundary source failures.offset) :
    (⟨failures, some ([], cursor)⟩ : Outcome source).Placed cursor.offset where
  failures := boundary
  found nodes after isFound := by
    obtain ⟨rfl, rfl⟩ := Prod.mk.inj (Option.some.inj isFound)
    exact .nil (Nat.le_refl _)

/-- Matching takes characters from the beginning of what is left. -/
theorem Pattern.exists_taken {pattern : Pattern} {nodes : List Node} {after : Cursor source}
    (isFound : (pattern.run cursor failures).found? = some (nodes, after)) :
    pattern.find cursor.rest = some (nodes.map Node.part, after.rest)
      ∧ ∃ taken, taken ++ after.rest = cursor.rest
        ∧ after.offset = cursor.offset + utf8Length taken := by
  have told := pattern.told_run cursor failures
  rw [Outcome.told, isFound, Option.map_some] at told
  obtain ⟨taken, left⟩ := Pattern.find_suffix told.symm
  exact ⟨told.symm, taken, left, Cursor.offset_of_append left⟩

/-- A pattern without named patterns finds no nodes, and does not lead back. -/
theorem Pattern.placed_of_silent {pattern : Pattern} (silent : pattern.isSilent = true)
    (boundary : Boundary source (pattern.run cursor failures).failures.offset) :
    (pattern.run cursor failures).Placed cursor.offset := by
  refine ⟨boundary, fun nodes after isFound => ?_⟩
  obtain ⟨found, taken, -, moved⟩ := Pattern.exists_taken isFound
  rw [List.map_eq_nil_iff.mp (Pattern.eq_nil_of_isSilent silent found)]
  exact .nil (by omega)

/-- Repeating keeps what is placed, if the body does. -/
theorem placed_iterate {body : Matcher source}
    (each : ∀ cursor failures, Boundary source failures.offset →
      (body cursor failures).Placed cursor.offset)
    (found : List (List Node)) {start : Nat} (boundary : Boundary source failures.offset)
    (already : Lies source start found.reverse.flatten cursor.offset) :
    (iterate body cursor failures found).Placed start := by
  fun_induction iterate body cursor failures found with
  | case1 cursor failures found later ended =>
    have last := each cursor failures boundary
    rw [ended] at last
    refine ⟨last.failures, fun nodes after isFound => ?_⟩
    obtain ⟨rfl, rfl⟩ := Prod.mk.inj (Option.some.inj isFound)
    exact already
  | case2 cursor failures found later nodes after matched advanced inductionHypothesis =>
    have next := each cursor failures boundary
    rw [matched] at next
    apply inductionHypothesis next.failures
    simpa using already.append (next.found nodes after rfl)
  | case3 cursor failures found later nodes after matched stuck =>
    have last := each cursor failures boundary
    rw [matched] at last
    refine ⟨last.failures, fun all end_ isFound => ?_⟩
    obtain ⟨rfl, rfl⟩ := Prod.mk.inj (Option.some.inj isFound)
    simpa using already.append (last.found nodes after rfl)

/-- A part that is found is a single node, from the place where its body begins to the place
where it ends. -/
theorem Pattern.found_named {rule : Rule} {body : Pattern} {nodes : List Node}
    {after : Cursor source}
    (isFound : ((Pattern.named rule body).run cursor failures).found? = some (nodes, after)) :
    ∃ children, nodes = [.mk rule cursor.offset after.offset cursor.rest children]
      ∧ (body.run cursor failures).found? = some (children, after) := by
  rw [run] at isFound
  split at isFound
  · cases isFound
  · next later children last ran =>
    obtain ⟨rfl, rfl⟩ := Prod.mk.inj (Option.some.inj isFound)
    exact ⟨children, rfl, by rw [ran]⟩

/-- What two patterns find one after the other lies so. -/
theorem Pattern.placed_both {first second : Pattern}
    (before : (first.run cursor failures).Placed cursor.offset)
    (behind : ∀ (middle : Cursor source) (tried : Failures), Boundary source tried.offset →
      (second.run middle tried).Placed middle.offset) :
    ((Pattern.both first second).run cursor failures).Placed cursor.offset := by
  rw [run]
  split
  · next tried ran =>
    rw [ran] at before
    exact ⟨before.failures, by simp⟩
  · next tried nodes middle ran =>
    rw [ran] at before
    have later := behind middle tried before.failures
    split
    · next last ranLater =>
      rw [ranLater] at later
      exact ⟨later.failures, by simp⟩
    · next last more after ranLater =>
      rw [ranLater] at later
      refine ⟨later.failures, fun all place isFound => ?_⟩
      obtain ⟨rfl, rfl⟩ := Prod.mk.inj (Option.some.inj isFound)
      exact (before.found nodes middle rfl).append (later.found more after rfl)

/-- A part that is found lies around what its body finds. -/
theorem Pattern.placed_named {rule : Rule} {body : Pattern}
    (ownPattern : Grammar.pattern rule = .named rule body)
    (tried : (body.run cursor failures).Placed cursor.offset) :
    ((Pattern.named rule body).run cursor failures).Placed cursor.offset := by
  refine ⟨?_, fun nodes after isFound => ?_⟩
  · rw [run]
    split
    · next later ran =>
      rw [ran] at tried
      exact Failures.boundary_afterPart tried.failures cursor.boundary
    · next later children last ran =>
      rw [ran] at tried
      exact tried.failures
  · obtain ⟨children, rfl, inBody⟩ := found_named isFound
    obtain ⟨found, taken, left, moved⟩ := exists_taken isFound
    obtain ⟨passed, whole, counted⟩ := cursor.reached
    have text : (Node.mk rule cursor.offset after.offset cursor.rest children).text = taken :=
      Node.text_eq left
    have around : passed ++ (Node.mk rule cursor.offset after.offset cursor.rest children).text
        ++ after.rest = source := by
      rw [text, List.append_assoc, left, whole]
    refine .cons (Nat.le_refl _) around counted ?_ ?_ (tried.found children after inBody)
      (.nil (Nat.le_refl _))
    · rw [text, Text.utf8Length_append, counted, Node.stop, moved]
    · rw [text, Node.rule, ownPattern, left, found]
      rfl

/-- Whatever matching finds lies from the place where it began to the place where it ends. -/
theorem Pattern.placed_run (pattern : Pattern) (follows : pattern.Follows) (cursor : Cursor source)
    (failures : Failures) (boundary : Boundary source failures.offset) :
    (pattern.run cursor failures).Placed cursor.offset := by
  induction pattern generalizing cursor failures with
  | exactly expected => exact placed_of_silent rfl (by rwa [run])
  | one test =>
    refine placed_of_silent rfl ?_
    rw [run]
    split <;> exact boundary
  | finish => exact placed_of_silent rfl (by rwa [run])
  | both first second firstPlaced secondPlaced =>
    exact placed_both (firstPlaced follows.1 cursor failures boundary) (secondPlaced follows.2)
  | either first second firstPlaced secondPlaced =>
    have tried := firstPlaced follows.1 cursor failures boundary
    rw [run]
    split
    · next later ran =>
      rw [ran] at tried
      exact secondPlaced follows.2 cursor later tried.failures
    · exact tried
  | many body bodyPlaced =>
    rw [run]
    exact placed_iterate (bodyPlaced follows) [] boundary (.nil (Nat.le_refl _))
  | maybe body bodyPlaced =>
    have tried := bodyPlaced follows cursor failures boundary
    rw [run]
    split
    · next later ran =>
      rw [ran] at tried
      exact .of_stay tried.failures
    · exact tried
  | notBefore body bodyPlaced =>
    have tried := bodyPlaced follows cursor failures boundary
    rw [run]
    split
    · next later ran =>
      rw [ran] at tried
      exact .of_stay tried.failures
    · next later inBody ran =>
      rw [ran] at tried
      exact ⟨tried.failures, by simp⟩
  | named rule body bodyPlaced =>
    exact placed_named follows.1 (bodyPlaced follows.2 cursor failures boundary)

end

end Nonlocal.Source
