import DocumentGraph.Proofs.Evaluate.Property
import DocumentGraph.Proofs.Evaluate.Selection
import DocumentGraph.Proofs.Match.Complete
import DocumentGraph.Proofs.Match.Narrowing
import DocumentGraph.Proofs.Query.Site

namespace DocumentGraph

open Match (Bindings NodePlace)
open Query (Condition Identifier Literal NodePattern PropertyAccess Site)

/-! Property maps and conditions.

A pair of a property map may be moved to the front of the condition if its literal is no text.
The map is looked at when the node is found, before the condition and before the rest of the
pattern; in front of the condition the pair is looked at before the rest of the condition.  So the
rest is evaluated on the same binding sets in the same order, and fails where it failed.
-/

namespace Query

/-- The condition that a property of a variable meets a literal. -/
def Condition.asks (access : PropertyAccess) : Literal → Condition
  | .null => .nullCheck access false
  | literal => .comparison access .equals (.literal literal)

/-- A condition in front of another, or alone. -/
def Condition.before (first : Condition) : Option Condition → Condition
  | none => first
  | some rest => .and first rest

end Query

namespace Evaluate

variable {access : PropertyAccess} {bindings : Bindings} {sets : List Bindings} {node : Node}
  {literal : Literal} {first : Condition} {condition? : Option Condition}

theorem value_property (bound : bindings.element? access.owner = some (.node node)) :
    (property bindings access).run.value = .ok (node.property access.property).value := by
  rw [property, element, bound]
  rfl

theorem verdict_asks (bound : bindings.element? access.owner = some (.node node))
    (scalar : ∀ text, literal ≠ .string text) :
    verdict (some (.asks access literal)) bindings =
      .ok ((node.property access.property).value.meets literal) := by
  have flat := node.flat_property access.property
  have equation (known : literal ≠ .null) :
      verdict (some (.comparison access .equals (.literal literal))) bindings =
        .ok ((node.property access.property).value.meets literal) := by
    rw [verdict, condition, Evaluation.value_run_bind, value_property bound,
      ← flat.apply_equals scalar known]
    rfl
  cases literal with
  | null =>
      rw [Condition.asks, verdict, condition, Evaluation.value_run_bind, value_property bound,
        flat.meets_null]
      exact congrArg Except.ok (Bool.bne_false _)
  | string text => exact absurd rfl (scalar text)
  | integer value => exact equation (by simp)
  | boolean value => exact equation (by simp)

theorem verdict_before {holds : Bool} (judged : verdict (some first) bindings = .ok holds) :
    verdict (some (first.before condition?)) bindings =
      if holds then verdict condition? bindings else .ok false := by
  cases condition? with
  | none => cases holds <;> exact judged
  | some rest =>
      rw [Condition.before, verdict, condition, Evaluation.value_run_bind]
      rw [verdict] at judged
      rw [judged]
      cases holds <;> rfl

theorem value_filter_cons (condition? : Option Condition) (bindings : Bindings)
    (rest : List Bindings) : (filter condition? (bindings :: rest)).run.value =
      verdict condition? bindings >>= fun holds =>
      (filter condition? rest).run.value >>= fun others =>
        .ok (if holds then bindings :: others else others) := by
  cases condition? with
  | none => rfl
  | some given => exact value_keep_cons given bindings rest

/-- A test in front of a condition may be made before the condition. -/
theorem value_filter_before {test : Bindings → Bool}
    (judged : ∀ bindings ∈ sets, verdict (some first) bindings = .ok (test bindings)) :
    (filter (some (first.before condition?)) sets).run.value =
      (filter condition? (sets.filter test)).run.value := by
  induction sets with
  | nil => cases condition? <;> rfl
  | cons bindings rest ih =>
      obtain ⟨here, others⟩ := List.forall_mem_cons.mp judged
      rw [value_filter_cons, verdict_before here, ih others, List.filter_cons]
      cases test bindings with
      | true => exact (value_filter_cons condition? bindings _).symm
      | false =>
          -- The condition is not looked at, on one side because of AND.
          rw [if_neg Bool.false_ne_true, if_neg Bool.false_ne_true]
          cases (filter condition? (rest.filter test)).run.value <;> rfl

end Evaluate

namespace Match

variable {pattern : NodePattern} {key : String} {literal : Literal}
  {front behind : List (String × Literal)} {remaining : Option (List (String × Literal))}

/-- Without one pair a pattern asks for less. -/
theorem narrows_of_pair (pairs : pattern.properties.getD [] = front ++ (key, literal) :: behind)
    (left : remaining.getD [] = front ++ behind) :
    Narrows pattern { pattern with properties := remaining }
      fun node => (node.property key).value.meets literal where
  binder := rfl
  satisfied node := by
    unfold satisfies
    dsimp only
    split
    · rw [pairs, left, value_meetsAll, value_meetsAll, List.all_append, List.all_append,
        List.all_cons, Bool.and_right_comm, Bool.and_assoc]
    · rfl

/-- The place is one site among those of the patterns. -/
theorem NodePlace.sites_fill (place : NodePlace) :
    ∃ front behind, ∀ node, Query.sites (place.fill node) = front ++ .node node :: behind := by
  obtain ⟨before, hole, after⟩ := place
  cases hole with
  | atStart hops =>
      refine ⟨Query.sites before, hops.flatMap Query.Hop.sites ++ Query.sites after, fun node => ?_⟩
      simp [fill, PatternHole.fill, Query.sites, Query.Pattern.sites]
  | behindHop start hops relationship others =>
      refine ⟨Query.sites before ++ (.node start :: hops.flatMap Query.Hop.sites) ++
        [.relationship relationship], others.flatMap Query.Hop.sites ++ Query.sites after,
        fun node => ?_⟩
      simp [fill, PatternHole.fill, Query.sites, Query.Pattern.sites, Query.Hop.sites]

end Match

namespace Query

/-- The sites stay consistent when one of them is replaced by another with the same name. -/
theorem Consistent.replace {front behind : List Site} {site other : Site}
    (consistent : Consistent (front ++ site :: behind)) (known : other.known = site.known)
    (introduced : other.introduced? = site.introduced?) :
    Consistent (front ++ other :: behind) where
  known := by
    intro member inside
    have all := consistent.known
    simp only [List.mem_append, List.mem_cons] at all inside
    rcases inside with early | rfl | late
    · exact all member (.inl early)
    · exact known.trans (all site (.inr (.inl rfl)))
    · exact all member (.inr (.inr late))
  compatible := by
    have compatible := consistent.compatible
    rwa [List.filterMap_append, List.filterMap_cons, ← introduced, ← List.filterMap_cons,
      ← List.filterMap_append] at compatible

section Moved

variable {query : Query} {place : NodePlace} {pattern : NodePattern} {access : PropertyAccess}
  {literal : Literal} {remaining : Option (List (String × Literal))}

/-- The query with one pair of a property map in front of the condition. -/
def movePair (query : Query) (place : NodePlace) (pattern : NodePattern)
    (remaining : Option (List (String × Literal))) (access : PropertyAccess) (literal : Literal) :
    Query where
  patterns := place.fill { pattern with properties := remaining }
  condition := some (Condition.before (.asks access literal) query.condition)
  projection := query.projection

theorem Condition.uses_asks : (Condition.asks access literal).uses = [access.owner] := by
  cases literal <;> rfl

theorem Condition.uses_before (first : Condition) (condition? : Option Condition) :
    (first.before condition?).uses = first.uses ++ (condition?.map Condition.uses).getD [] := by
  cases condition? with
  | none => exact (List.append_nil _).symm
  | some rest => rfl

theorem check_movePair (accepted : query.check = .ok ()) (written : query.patterns = place.fill pattern)
    (named : pattern.binder.map Identifier.name = some access.owner.name) :
    (query.movePair place pattern remaining access literal).check = .ok () := by
  obtain ⟨front, behind, sites_eq⟩ := place.sites_fill
  obtain ⟨consistent, introduced⟩ := check_iff_consistent.mp accepted
  rw [written, sites_eq] at consistent introduced
  refine check_iff_consistent.mpr ⟨?_, fun identifier used => ?_⟩
  · rw [movePair, sites_eq]
    exact consistent.replace rfl rfl
  · have sameNames : (front ++ Site.node { pattern with properties := remaining } :: behind).filterMap
        Site.introduced? = (front ++ Site.node pattern :: behind).filterMap Site.introduced? := by
      rw [List.filterMap_append, List.filterMap_append, List.filterMap_cons, List.filterMap_cons]
      rfl
    rw [movePair, sites_eq, sameNames]
    have usedBefore : identifier = access.owner ∨ identifier ∈ query.uses := by
      simpa [uses, movePair, Condition.uses_before, Condition.uses_asks, or_assoc] using used
    rcases usedBefore with rfl | before
    · obtain ⟨owner, binder, sameName⟩ := Option.map_eq_some_iff.mp named
      refine ⟨.node, List.mem_filterMap.mpr ⟨.node pattern, by simp, ?_⟩⟩
      rw [← sameName]
      exact congrArg (Option.map _) binder
    · exact introduced identifier before

/-- The condition behind the moved pair is evaluated on the same binding sets. -/
theorem rows_movePair (changes : List Graph.Change) (maxDepth : Nat)
    (accepted : query.check = .ok ()) (written : query.patterns = place.fill pattern)
    (named : pattern.binder.map Identifier.name = some access.owner.name)
    {front behind : List (String × Literal)}
    (pairs : pattern.properties.getD [] = front ++ (access.property, literal) :: behind)
    (left : remaining.getD [] = front ++ behind) (scalar : ∀ text, literal ≠ .string text) :
    (query.rows (Graph.ofChanges changes).snapshot maxDepth).run.value =
      ((query.movePair place pattern remaining access literal).rows
        (Graph.ofChanges changes).snapshot maxDepth).run.value := by
  obtain ⟨owner, binder, sameName⟩ := Option.map_eq_some_iff.mp named
  have moved : (query.movePair place pattern remaining access literal).check = .ok () :=
    check_movePair accepted written named
  obtain ⟨last, introduced, _⟩ := check_eq_ok_iff.mp moved
  obtain ⟨narrowed, settled⟩ := Match.value_patterns_narrow maxDepth
    (Graph.indexed_ofChanges changes) (Match.narrows_of_pair pairs left) binder place introduced
  have judged : ∀ bindings ∈ (Match.patterns (Graph.ofChanges changes).snapshot maxDepth
      (place.fill { pattern with properties := remaining })).value,
      Evaluate.verdict (some (.asks access literal)) bindings = .ok (Match.standsFor owner
        (fun node => (node.property access.property).value.meets literal) bindings) := by
    intro bindings found
    obtain ⟨node, bound⟩ := settled bindings found
    have same : bindings.element? access.owner = some (.node node) := by
      rwa [Bindings.element?, ← sameName]
    rw [Match.standsFor_of_bound bound, Evaluate.verdict_asks same scalar]
  rw [value_rows, value_rows, written, narrowed]
  exact congrArg (· >>= _) (Evaluate.value_filter_before judged).symm

/-- A pair of a property map asks of a node what its condition asks of the node behind the variable.
So the query with the pair and the query with the condition in front of its own give the same table,
apart from warnings, and one refuses if the other does. -/
theorem run_movePair (changes : List Graph.Change) (maxDepth : Nat) (accepted : query.check = .ok ())
    (written : query.patterns = place.fill pattern)
    (named : pattern.binder.map Identifier.name = some access.owner.name)
    {front behind : List (String × Literal)}
    (pairs : pattern.properties.getD [] = front ++ (access.property, literal) :: behind)
    (left : remaining.getD [] = front ++ behind) (scalar : ∀ text, literal ≠ .string text) :
    (∀ (node : Node) (bindings : Bindings), bindings.element? access.owner = some (.node node) →
      Evaluate.verdict (some (.asks access literal)) bindings =
        .ok (Match.meetsAll node [(access.property, literal)]).value) ∧
    (query.movePair place pattern remaining access literal).check = .ok () ∧
    ∃ table table', query.run (Graph.ofChanges changes).snapshot maxDepth = .ok table ∧
      (query.movePair place pattern remaining access literal).run (Graph.ofChanges changes).snapshot
        maxDepth = .ok table' ∧
      table.columns = table'.columns ∧ table.rows = table'.rows ∧
      (table.Refused ↔ table'.Refused) := by
  have moved : (query.movePair place pattern remaining access literal).check = .ok () :=
    check_movePair accepted written named
  refine ⟨fun node bindings bound => ?_, moved, ?_⟩
  · rw [Evaluate.verdict_asks bound scalar, Match.value_meetsAll, List.all_cons, List.all_nil,
      Bool.and_true]
  · exact run_eq_of_rows (bindsUses_of_check accepted) (bindsUses_of_check moved) rfl
      (rows_movePair changes maxDepth accepted written named pairs left scalar)

end Moved

/-- A node with a rank, one with a list of ranks and one with none. -/
def ranks : List Graph.Change :=
  [.node { id := "a", properties := [("rank", .integer 1)] },
    .node { id := "b", properties := [("rank", .list ["1"])] }, .node { id := "c" }]

/-- `(n {rank: 1})` -/
def firstRank : NodePattern where
  binder := some { name := "n", position := {} }
  properties := some [("rank", .integer 1)]

/-- `n.rank` -/
def rank : PropertyAccess where
  owner := { name := "n", position := {} }
  property := "rank"

/-- `MATCH (n {rank: 1}) WHERE n.rank < 2 RETURN n.id` -/
def lowest : Query where
  patterns := [{ start := firstRank, hops := [] }]
  condition := some (.comparison rank .lessThan (.literal (.integer 2)))
  projection := {
    distinct := false
    items := [{ expression := .property { owner := rank.owner, property := "id" } }] }

/-- The pair keeps the list of ranks, which has no order, from the condition, and so does the
condition that it becomes. -/
theorem run_movePair_lowest : lowest.check = .ok () ∧
    ∃ table table', lowest.run (Graph.ofChanges ranks).snapshot 1 = .ok table ∧
      (lowest.movePair ⟨[], .atStart [], []⟩ firstRank none rank (.integer 1)).run
        (Graph.ofChanges ranks).snapshot 1 = .ok table' ∧
      table.rows = [[("n.id", .string "a")]] ∧ table'.rows = [[("n.id", .string "a")]] := by
  have accepted : lowest.check = .ok () := rfl
  have written : lowest.patterns = (⟨[], .atStart [], []⟩ : NodePlace).fill firstRank := rfl
  have pairs : firstRank.properties.getD [] = [] ++ (rank.property, .integer 1) :: [] := rfl
  have left : (none : Option (List (String × Literal))).getD [] = [] ++ [] := rfl
  obtain ⟨_, _, table, table', ran, ran', _, same, _⟩ :=
    run_movePair ranks 1 accepted written rfl pairs left (by simp)
  have rows : table.rows = [[("n.id", .string "a")]] :=
    Except.ok.inj ((congrArg (Except.map Table.rows) ran).symm.trans rfl)
  exact ⟨accepted, table, table', ran, ran', rows, same.symm.trans rows⟩

end Query

end DocumentGraph
