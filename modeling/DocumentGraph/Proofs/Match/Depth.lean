import DocumentGraph.Proofs.Evaluate.Projection
import DocumentGraph.Proofs.Match.Trail
import Mathlib.Data.List.Flatten

namespace DocumentGraph

open Match (Bindings Partial)
open Query (Hop NodePattern Pattern RelationshipPattern)

/-! Deeper searches.

The bound on hops without an upper bound of their own cuts the list of trails of every such hop
at its end.  What later hops, later patterns and the condition make of the trails that are left
keeps its place among what they make of all of them, so a deeper search finds more rows in
between, and never other ones.
-/

namespace Match

variable {graph : Snapshot} {depth deeper : Nat}

theorem trails_sublist (relationship : RelationshipPattern) (min : Nat) (le : depth ≤ deeper)
    (source : Node) :
    (trails graph relationship min depth source).Sublist
      (trails graph relationship min deeper source) := by
  unfold trails
  rw [flatten_drop_levels, flatten_drop_levels]
  have lengths : depth + 1 - Nat.max 1 min ≤ deeper + 1 - Nat.max 1 min := by omega
  exact (List.range'_sublist_right.mpr lengths).flatMap _

theorem hop_sublist (le : depth ≤ deeper) (hop : Hop) (current : Partial) :
    (Match.hop graph depth hop current).value.Sublist (Match.hop graph deeper hop current).value := by
  unfold Match.hop
  cases hop.relationship.range with
  | none => exact List.Sublist.refl _
  | some range =>
      have most : (range.max.map UInt32.toNat).getD depth ≤
          (range.max.map UInt32.toNat).getD deeper := by
        cases range.max with
        | none => exact le
        | some bound => exact Nat.le_refl _
      rw [value_manySteps, value_manySteps]
      exact (trails_sublist hop.relationship _ most current.anchor).filterMap _

/-- Stages that each find a part of what others find do so together. -/
theorem foldl_flatMap_sublist {ι σ : Type} {stage others : ι → σ → List σ}
    (each : ∀ item state, (stage item state).Sublist (others item state)) (items : List ι)
    {states begun : List σ} (part : states.Sublist begun) :
    (items.foldl (fun found item => found.flatMap (stage item)) states).Sublist
      (items.foldl (fun found item => found.flatMap (others item)) begun) := by
  induction items generalizing states begun with
  | nil => exact part
  | cons item items ih =>
      have here : (states.flatMap (stage item)).Sublist (states.flatMap (others item)) :=
        List.Sublist.flatMap_right states fun state _ => each item state
      exact ih (here.trans (part.flatMap (others item)))

theorem pattern_sublist (le : depth ≤ deeper) (pattern : Pattern) (bindings : Bindings) :
    (Match.pattern graph depth pattern bindings).value.Sublist
      (Match.pattern graph deeper pattern bindings).value := by
  rw [value_pattern, value_pattern]
  exact (foldl_flatMap_sublist (hop_sublist le) pattern.hops (List.Sublist.refl _)).map _

theorem patterns_sublist (le : depth ≤ deeper) (patterns : List Pattern) :
    (Match.patterns graph depth patterns).value.Sublist
      (Match.patterns graph deeper patterns).value := by
  rw [value_patterns, value_patterns]
  exact foldl_flatMap_sublist (pattern_sublist le) patterns (List.Sublist.refl _)

/-- No variable-length hop leaves its upper bound open. -/
def UpperBounded (patterns : List Pattern) : Prop :=
  ∀ pattern ∈ patterns, ∀ hop ∈ pattern.hops, ∀ range ∈ hop.relationship.range,
    range.max.isSome

theorem hop_eq_of_upperBounded {hop : Hop}
    (bounded : ∀ range ∈ hop.relationship.range, range.max.isSome) :
    Match.hop graph depth hop = Match.hop graph deeper hop := by
  funext current
  unfold Match.hop
  cases written : hop.relationship.range with
  | none => rfl
  | some range =>
      obtain ⟨most, given⟩ := Option.isSome_iff_exists.mp (bounded range written)
      simp only [manySteps, given, Option.map_some, Option.getD_some]

theorem patterns_eq_of_upperBounded {patterns : List Pattern} (bounded : UpperBounded patterns) :
    Match.patterns graph depth patterns = Match.patterns graph deeper patterns := by
  have each : ∀ pattern ∈ patterns,
      Match.pattern graph depth pattern = Match.pattern graph deeper pattern := by
    intro pattern member
    funext bindings
    have hops : ∀ begun, pattern.hops.foldlM
        (fun found hop => Noted.collect found (Match.hop graph depth hop)) begun =
      pattern.hops.foldlM
        (fun found hop => Noted.collect found (Match.hop graph deeper hop)) begun :=
      Noted.foldlM_congr fun hop inside found => by
        rw [hop_eq_of_upperBounded (bounded pattern member hop inside)]
    simp only [Match.pattern, hops]
  exact Noted.foldlM_congr (fun pattern member found => by rw [each pattern member]) _

end Match

namespace Query

variable {depth deeper : Nat}

/-- Every row that a query finds it also finds at a greater depth, in the same order, unless it
refuses there.  The depth does not matter to a query whose ranges are all bounded above. -/
theorem run_sublist_of_depth_le (graph : Snapshot) (query : Query)
    (accepted : query.check = .ok ()) (plain : query.projection.Plain) (le : depth ≤ deeper) :
    (∀ table', query.run graph deeper = .ok table' → ¬ table'.Refused →
      ∃ table, query.run graph depth = .ok table ∧ ¬ table.Refused ∧
        table.columns = table'.columns ∧ table.rows.Sublist table'.rows) ∧
    (Match.UpperBounded query.patterns → query.run graph depth = query.run graph deeper) := by
  have found : (Match.patterns graph depth query.patterns).value.Sublist
      (Match.patterns graph deeper query.patterns).value := Match.patterns_sublist le query.patterns
  have bound (maxDepth : Nat) : query.BindsUses graph maxDepth := bindsUses_of_check accepted
  constructor
  · intro table' ran' answered
    have judged' := judged_of_answered (bound deeper) fun table ran =>
      Except.ok.inj (ran'.symm.trans ran) ▸ answered
    obtain ⟨table, ran, answers, rows⟩ :=
      answers_of_judged (bound depth) plain fun bindings member => judged' bindings (found.subset member)
    obtain ⟨_, deeperRan, deeperAnswers, deeperRows⟩ := answers_of_judged (bound deeper) plain judged'
    obtain rfl := Except.ok.inj (ran'.symm.trans deeperRan)
    refine ⟨table, ran, fun refused => refused.not_answers answers, ?_, ?_⟩
    · rw [answers.columns, deeperAnswers.columns]
    · rw [rows, deeperRows]
      exact (found.filter _).map _
  · intro bounded
    have same : query.rows graph depth = query.rows graph deeper := by
      rw [rows, Match.patterns_eq_of_upperBounded bounded]
      rfl
    rw [run, run, same]

/-- A chain of three nodes; its last edge leads nowhere. -/
def hanging : Snapshot :=
  Snapshot.ofLists [{ id := "x" }, { id := "y" }, { id := "z" }]
    [{ id := "x-y", type := "LINKS_TO", source := "x", target := "y" },
      { id := "y-z", type := "LINKS_TO", source := "y", target := "z" },
      { id := "z-w", type := "LINKS_TO", source := "z", target := "w" }]

/-- `MATCH (a)-[*]->(b) RETURN b.id`, or `*1..most` if there is an upper bound. -/
def descendants (most : Option UInt32) : Query :=
  let node (name : String) : NodePattern := { binder := some { name, position := {} } }
  let path : RelationshipPattern := { direction := .forward, range := some ⟨most.map fun _ => 1, most⟩ }
  let id : PropertyAccess := { owner := { name := "b", position := {} }, property := "id" }
  { patterns := [{ start := node "a", hops := [{ relationship := path, node := node "b" }] }]
    condition := none
    projection := { distinct := false, items := [{ expression := .property id }] } }

/-- The path that depth 1 misses ends between the two paths that it finds. -/
theorem run_sublist_of_depth_le_descendants :
    (∃ table table', (descendants none).run hanging 1 = .ok table ∧
      (descendants none).run hanging 2 = .ok table' ∧ table.rows.Sublist table'.rows ∧
      table.rows = [[("b.id", .string "y")], [("b.id", .string "z")]] ∧
      table'.rows = [[("b.id", .string "y")], [("b.id", .string "z")], [("b.id", .string "z")]]) ∧
    (descendants (some 2)).run hanging 1 = (descendants (some 2)).run hanging 2 := by
  constructor
  · have deeperRan : (descendants none).run hanging 2 = .ok {
        columns := ["b.id"]
        rows := [[("b.id", .string "y")], [("b.id", .string "z")], [("b.id", .string "z")]] } := rfl
    obtain ⟨table, ran, _, _, part⟩ := (run_sublist_of_depth_le hanging (descendants none) rfl
      ⟨rfl, rfl⟩ (Nat.le_succ 1)).1 _ deeperRan fun refused => nomatch refused.columns
    have rows : table.rows = [[("b.id", .string "y")], [("b.id", .string "z")]] :=
      Except.ok.inj ((congrArg (Except.map Table.rows) ran).symm.trans rfl)
    exact ⟨table, _, ran, deeperRan, part, rows, rfl⟩
  · refine (run_sublist_of_depth_le hanging (descendants (some 2)) rfl ⟨rfl, rfl⟩
      (Nat.le_succ 1)).2 ?_
    simp [Match.UpperBounded, descendants]

end Query

end DocumentGraph
