import Nonlocal.Proofs.Source.Places

/-!
# Nodes and the patterns they come from

Every node that matching yields was found by the pattern of its kind, at the place where
the node begins, and so were the nodes inside it. Nothing is known of the failures on record
when it was found. A node therefore lies over its parts as its pattern says: a cell has the
place of the fraction or numeral in it, and a fraction begins where its first integer does.
-/

namespace Nonlocal.Source

variable {source : List Char} {cursor after : Cursor source} {failures : Failures}
  {nodes : List Node} {node inner : Node}

/-- A node that the pattern of its kind finds at some place of a source. -/
def Node.Matched (source : List Char) (node : Node) : Prop :=
  ∃ (cursor after : Cursor source) (failures : Failures),
    ((Grammar.pattern node.rule).run cursor failures).found? = some ([node], after)

namespace Pattern

/-- A silent pattern finds no nodes. -/
theorem nodes_eq_nil {pattern : Pattern} (silent : pattern.isSilent = true)
    (isFound : (pattern.run cursor failures).found? = some (nodes, after)) : nodes = [] :=
  List.map_eq_nil_iff.mp (eq_nil_of_isSilent silent (exists_taken isFound).1)

/-- Two patterns one after the other find what the first one finds, and then what the second one
finds behind it. -/
theorem found_both {first second : Pattern}
    (isFound : ((both first second).run cursor failures).found? = some (nodes, after)) :
    ∃ before middle more later,
      (first.run cursor failures).found? = some (before, middle)
        ∧ (second.run middle later).found? = some (more, after) ∧ nodes = before ++ more := by
  rw [run] at isFound
  split at isFound
  · cases isFound
  · next later before middle ran =>
    split at isFound
    · cases isFound
    · next last more place ranLater =>
      obtain ⟨rfl, rfl⟩ := Prod.mk.inj (Option.some.inj isFound)
      exact ⟨before, middle, more, later, by rw [ran], by rw [ranLater], rfl⟩

/-- An alternative finds what one of the two patterns finds. -/
theorem found_either {first second : Pattern}
    (isFound : ((either first second).run cursor failures).found? = some (nodes, after)) :
    (first.run cursor failures).found? = some (nodes, after)
      ∨ ∃ later, (second.run cursor later).found? = some (nodes, after) := by
  rw [run] at isFound
  split at isFound
  · next later ran => exact .inr ⟨later, isFound⟩
  · exact .inl isFound

/-- What may be missing is found or is nothing. -/
theorem found_maybe {body : Pattern}
    (isFound : ((maybe body).run cursor failures).found? = some (nodes, after)) :
    (body.run cursor failures).found? = some (nodes, after) ∨ nodes = [] := by
  rw [run] at isFound
  split at isFound
  · exact .inr (Prod.mk.inj (Option.some.inj isFound)).1.symm
  · exact .inl isFound

end Pattern

/-- What a repetition finds is found by its body, if all that was found before is. -/
theorem forall_found_iterate {body : Matcher source} {Found : Node → Prop}
    (each : ∀ {cursor failures nodes after},
      (body cursor failures).found? = some (nodes, after) → ∀ node ∈ nodes, Found node)
    (before : List (List Node)) (already : ∀ node ∈ before.reverse.flatten, Found node)
    (isFound : (iterate body cursor failures before).found? = some (nodes, after)) :
    ∀ node ∈ nodes, Found node := by
  fun_induction iterate body cursor failures before with
  | case1 cursor failures before later ended =>
    obtain ⟨rfl, -⟩ := Prod.mk.inj (Option.some.inj isFound)
    exact already
  | case2 cursor failures before later more place matched advanced inductionHypothesis =>
    refine inductionHypothesis ?_ isFound
    have ran : (body cursor failures).found? = some (more, place) := by rw [matched]
    simpa using List.forall_mem_append.mpr ⟨already, each ran⟩
  | case3 cursor failures before later more place matched stuck =>
    obtain ⟨rfl, -⟩ := Prod.mk.inj (Option.some.inj isFound)
    have ran : (body cursor failures).found? = some (more, place) := by rw [matched]
    simpa using List.forall_mem_append.mpr ⟨already, each ran⟩

/-- All nodes that a pattern finds are matched, if the named patterns in it are those of their
kinds. -/
theorem Pattern.matched_of_found (pattern : Pattern) (follows : pattern.Follows)
    (isFound : (pattern.run cursor failures).found? = some (nodes, after)) :
    ∀ node ∈ nodes, node.Matched source := by
  induction pattern generalizing cursor failures nodes after with
  | exactly | one | finish | notBefore => simp [nodes_eq_nil rfl isFound]
  | both first second firstMatched secondMatched =>
    obtain ⟨before, middle, more, later, found, foundLater, rfl⟩ := found_both isFound
    exact List.forall_mem_append.mpr
      ⟨firstMatched follows.1 found, secondMatched follows.2 foundLater⟩
  | either first second firstMatched secondMatched =>
    rcases found_either isFound with found | ⟨later, found⟩
    · exact firstMatched follows.1 found
    · exact secondMatched follows.2 found
  | many body bodyMatched =>
    rw [run] at isFound
    exact forall_found_iterate (fun found => bodyMatched follows found) [] (by simp) isFound
  | maybe body bodyMatched =>
    rcases found_maybe isFound with found | rfl
    · exact bodyMatched follows found
    · simp
  | named rule body _ =>
    obtain ⟨children, rfl, -⟩ := found_named isFound
    refine List.forall_mem_singleton.mpr ⟨cursor, after, failures, ?_⟩
    rw [Node.rule, follows.1]
    exact isFound

/-- The named patterns in the pattern of each kind are those of their kinds. -/
theorem Grammar.follows_pattern (rule : Rule) : (Grammar.pattern rule).Follows := by
  cases rule <;> repeat' constructor

/-- A node that is matched lies from where its pattern begins to where it ends, and the body of
its pattern finds the nodes inside it there. -/
theorem Node.Matched.exists_body (matched : node.Matched source) (body : Pattern)
    (ownPattern : Grammar.pattern node.rule = .named node.rule body) :
    ∃ (cursor after : Cursor source) (failures : Failures),
      node = .mk node.rule cursor.offset after.offset cursor.rest node.children
        ∧ (body.run cursor failures).found? = some (node.children, after) := by
  obtain ⟨cursor, after, failures, isFound⟩ := matched
  rw [ownPattern] at isFound
  obtain ⟨children, same, found⟩ := Pattern.found_named isFound
  have whole := (List.cons.inj same).1
  obtain rfl : node.children = children := by rw [whole]; rfl
  exact ⟨cursor, after, failures, whole, found⟩

/-- The nodes inside a node that is matched are matched. -/
theorem Node.Matched.child (matched : node.Matched source) (member : inner ∈ node.children) :
    inner.Matched source := by
  obtain ⟨body, ownPattern⟩ : ∃ body, Grammar.pattern node.rule = .named node.rule body := by
    cases node.rule <;> exact ⟨_, rfl⟩
  have follows := Grammar.follows_pattern node.rule
  rw [ownPattern] at follows
  obtain ⟨cursor, after, failures, -, isFound⟩ := matched.exists_body body ownPattern
  exact Pattern.matched_of_found body follows.2 isFound inner member

/-- A node that matching has found in a source. -/
structure Node.Found (source : List Char) (node : Node) : Prop where
  matched : node.Matched source
  placed : node.Placed source

/-- The nodes inside it have been found, too. -/
theorem Node.Found.child (found : node.Found source) (member : inner ∈ node.children) :
    inner.Found source :=
  ⟨found.matched.child member, found.placed.child member⟩

/-- An integer has no nodes inside it. -/
theorem Node.Matched.integer (matched : node.Matched source) (isInteger : node.rule = .integer) :
    node.children = [] := by
  obtain ⟨_, _, _, -, isFound⟩ :=
    matched.exists_body Grammar.digits (by rw [isInteger]; rfl)
  exact Pattern.nodes_eq_nil rfl isFound

/-- A fraction has two integers inside it, and begins where the first of them does. -/
theorem Node.Matched.fraction (matched : node.Matched source) (isFraction : node.rule = .fraction) :
    ∃ numerator denominator, node.children = [numerator, denominator]
      ∧ numerator.rule = .integer ∧ denominator.rule = .integer
      ∧ numerator.start = node.start := by
  obtain ⟨cursor, after, failures, same, isFound⟩ := matched.exists_body
    (Grammar.spaced [Grammar.integer, Grammar.literal "/", Grammar.integer])
    (by rw [isFraction]; rfl)
  obtain ⟨_, _, _, _, first, behindFirst, parts⟩ := Pattern.found_both isFound
  obtain ⟨_, _, _, _, gap, behindGap, rfl⟩ := Pattern.found_both behindFirst
  obtain ⟨_, _, _, _, slash, behindSlash, rfl⟩ := Pattern.found_both behindGap
  obtain ⟨_, _, _, _, gapToo, second, rfl⟩ := Pattern.found_both behindSlash
  obtain ⟨_, rfl, -⟩ := Pattern.found_named first
  obtain ⟨_, rfl, -⟩ := Pattern.found_named second
  rw [Pattern.nodes_eq_nil rfl gap, Pattern.nodes_eq_nil rfl slash,
    Pattern.nodes_eq_nil rfl gapToo] at parts
  exact ⟨_, _, parts, rfl, rfl, by rw [same]; rfl⟩

/-- Inside a cell there is one node, a fraction or a numeral, in the same place and with the same
characters as the cell. -/
theorem Node.Matched.cell (matched : node.Matched source) (isCell : node.rule = .probability) :
    ∃ value, node.children = [value] ∧ (value.rule = .fraction ∨ value.rule = .number)
      ∧ value.span = node.span ∧ value.text = node.text := by
  obtain ⟨cursor, after, failures, same, isFound⟩ :=
    matched.exists_body (.either Grammar.fraction Grammar.number) (by rw [isCell]; rfl)
  rcases Pattern.found_either isFound with found | ⟨_, found⟩
  · obtain ⟨_, only, -⟩ := Pattern.found_named found
    exact ⟨_, only, .inl rfl, by rw [same]; rfl, by rw [same]; rfl⟩
  · obtain ⟨_, only, -⟩ := Pattern.found_named found
    exact ⟨_, only, .inr rfl, by rw [same]; rfl, by rw [same]; rfl⟩

/-- A numeral has no nodes inside it. -/
theorem Node.Matched.number (matched : node.Matched source) (isNumber : node.rule = .number) :
    node.children = [] := by
  obtain ⟨_, _, _, -, isFound⟩ := matched.exists_body
    (.both (.maybe (Grammar.literal "-"))
      (.either (.both Grammar.digits
          (.maybe (.both (Grammar.literal ".") (.many Grammar.digit))))
        (.both (Grammar.literal ".") Grammar.digits)))
    (by rw [isNumber]; rfl)
  exact Pattern.nodes_eq_nil rfl isFound

end Nonlocal.Source
