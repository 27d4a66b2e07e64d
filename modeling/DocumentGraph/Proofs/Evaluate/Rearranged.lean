import DocumentGraph.Proofs.Evaluate.Shown
import DocumentGraph.Proofs.Match.Rearranged

namespace DocumentGraph

open Match (Bindings)
open Query (Aggregate Condition Diagnostic Identifier Projection ReturnExpression ReturnItem)

/-! Queries on rearranged graphs.

Two graphs with the same elements differ for a query in the order of what it finds.  No step of an
evaluation makes more of the order: a condition judges every binding set by itself, a group has the
same members in another order, counts do not look at the order, and equal rows cannot be told apart.
So the rows come in another order, and nothing else changes.  Only lists made by COLLECT show the
order of their items.
-/

namespace Evaluation

variable {α β : Type}

/-- The same warnings, in any order and number. -/
def SameWarnings (left : Evaluation α) (right : Evaluation β) : Prop :=
  ∀ diagnostic, diagnostic ∈ left.run.warnings ↔ diagnostic ∈ right.run.warnings

structure Same (left right : Evaluation α) : Prop where
  value : left.run.value = right.run.value
  warnings : left.SameWarnings right

/-- Both give a list, one of them in another order, with the same warnings. -/
structure Rearranged (left right : Evaluation (List α)) : Prop where
  value : ∃ values others, left.run.value = .ok values ∧ right.run.value = .ok others ∧
    values.Perm others
  warnings : left.SameWarnings right

theorem Same.refl (evaluation : Evaluation α) : evaluation.Same evaluation :=
  ⟨rfl, fun _ => Iff.rfl⟩

section Sequence

variable {step step' : Evaluation α} {value value' : α}

theorem sameWarnings_bind {next next' : α → Evaluation β} (given : step.run.value = .ok value)
    (given' : step'.run.value = .ok value') (first : step.SameWarnings step')
    (rest : (next value).SameWarnings (next' value')) :
    (step >>= next).SameWarnings (step' >>= next') := by
  intro diagnostic
  rw [run_bind_of_ok given, run_bind_of_ok given', List.mem_append, List.mem_append,
    first diagnostic, rest diagnostic]

theorem Same.bind {next next' : α → Evaluation β} (first : step.Same step')
    (given : step.run.value = .ok value) (rest : (next value).Same (next' value)) :
    (step >>= next).Same (step' >>= next') where
  value := by
    rw [run_bind_of_ok given, run_bind_of_ok (first.value.symm.trans given)]
    exact rest.value
  warnings := sameWarnings_bind given (first.value.symm.trans given) first.warnings rest.warnings

theorem rearranged_bind {next next' : α → Evaluation (List β)}
    (given : step.run.value = .ok value) (given' : step'.run.value = .ok value')
    (first : step.SameWarnings step') (rest : (next value).Rearranged (next' value')) :
    (step >>= next).Rearranged (step' >>= next') where
  value := by
    rw [run_bind_of_ok given, run_bind_of_ok given']
    exact rest.value
  warnings := sameWarnings_bind given given' first rest.warnings

end Sequence

theorem Rearranged.bind {step step' : Evaluation (List α)}
    {next next' : List α → Evaluation (List β)} (first : step.Rearranged step')
    (rest : ∀ values others, step.run.value = .ok values → values.Perm others →
      (next values).Rearranged (next' others)) :
    (step >>= next).Rearranged (step' >>= next') := by
  obtain ⟨values, others, given, given', perm⟩ := first.value
  exact rearranged_bind given given' first.warnings (rest values others given perm)

theorem rearranged_pure {values others : List α} (perm : values.Perm others) :
    Rearranged (pure values) (pure others) :=
  ⟨⟨values, others, rfl, rfl, perm⟩, fun _ => Iff.rfl⟩

theorem rearranged_lift {noted noted' : Noted (List α)} (rearranged : noted.Rearranged noted') :
    Rearranged (liftM noted) (liftM noted') where
  value := ⟨noted.value, noted'.value, rfl, rfl, rearranged.value⟩
  warnings := fun diagnostic => by simpa using rearranged.warnings diagnostic

theorem rearranged_mapM {values others : List α} {f f' : α → Evaluation β} {g : α → β}
    (perm : values.Perm others) (each : ∀ value ∈ values, (f value).run.value = .ok (g value))
    (same : ∀ value ∈ values, (f value).Same (f' value)) :
    (values.mapM f).Rearranged (others.mapM f') := by
  have each' : ∀ value ∈ others, (f' value).run.value = .ok (g value) := by
    intro value member
    have inside := perm.mem_iff.mpr member
    rw [← (same value inside).value, each value inside]
  have first := run_mapM each
  have second := run_mapM each'
  refine ⟨⟨_, _, congrArg Noted.value first, congrArg Noted.value second, perm.map g⟩,
    fun diagnostic => ?_⟩
  rw [first, second, List.mem_flatMap, List.mem_flatMap]
  constructor
  · rintro ⟨value, member, noted⟩
    exact ⟨value, perm.mem_iff.mp member, ((same value member).warnings diagnostic).mp noted⟩
  · rintro ⟨value, member, noted⟩
    have inside := perm.mem_iff.mpr member
    exact ⟨value, inside, ((same value inside).warnings diagnostic).mpr noted⟩

end Evaluation

namespace Evaluate

variable {graph : Graph} {sets others members members' : List Bindings} {items : List ReturnItem}
  {projection : Projection}

/-- What a condition notes on a binding set. -/
def remarks (condition? : Option Condition) (bindings : Bindings) : List Diagnostic :=
  match condition? with
  | none => []
  | some given => (condition bindings given).run.warnings

theorem warnings_filter {condition? : Option Condition}
    (judged : ∀ bindings ∈ sets, ∃ holds, verdict condition? bindings = .ok holds) :
    (filter condition? sets).run.warnings = sets.flatMap (remarks condition?) := by
  cases condition? with
  | none => exact (List.flatMap_eq_nil_iff.mpr fun _ _ => rfl).symm
  | some given =>
      induction sets with
      | nil => rfl
      | cons bindings rest ih =>
          obtain ⟨⟨holds, first⟩, later⟩ := List.forall_mem_cons.mp judged
          have kept : (filter.keep given rest).run.value = _ := filter_of_ok later
          have noted : (filter.keep given (bindings :: rest)).run.warnings =
              (condition bindings given).run.warnings ++
                (filter.keep given rest).run.warnings := by
            rw [filter.keep, Evaluation.run_bind_of_ok first, Evaluation.run_bind_of_ok kept]
            simp
          exact noted.trans (congrArg _ (ih later))

theorem filter_rearranged {condition? : Option Condition}
    (judged : ∀ bindings ∈ sets, ∃ holds, verdict condition? bindings = .ok holds)
    (perm : sets.Perm others) :
    (filter condition? sets).Rearranged (filter condition? others) := by
  have judged' : ∀ bindings ∈ others, ∃ holds, verdict condition? bindings = .ok holds :=
    fun bindings member => judged bindings (perm.mem_iff.mpr member)
  refine ⟨⟨_, _, filter_of_ok judged, filter_of_ok judged', perm.filter _⟩, fun diagnostic => ?_⟩
  rw [warnings_filter judged, warnings_filter judged', List.mem_flatMap, List.mem_flatMap]
  simp only [perm.mem_iff]

theorem combine_perm {aggregate : Aggregate} {values values' : List Value}
    (counts : aggregate.function ≠ .collect) (perm : values.Perm values')
    (exact : Ordered.Exact Value.same values) :
    combine aggregate values = combine aggregate values' := by
  unfold combine
  cases written : aggregate.function with
  | collect => contradiction
  | count =>
      dsimp only
      split
      · rw [(exact.distinctBy_perm perm).countP_eq]
      · rw [perm.countP_eq]

theorem aggregateValue_same (indexed : graph.Indexed) {aggregate : Aggregate}
    (counts : aggregate.function ≠ .collect)
    (bound : ∀ bindings ∈ members, ∀ identifier ∈ aggregate.argument.uses,
      (bindings.element? identifier).isSome)
    (stored : ∀ bindings ∈ members, bindings.Stored graph) (perm : members.Perm members') :
    (aggregateValue members aggregate).Same (aggregateValue members' aggregate) := by
  have argument : ∀ bindings ∈ members, (argumentValue bindings aggregate.argument).run.value =
      .ok (argumentOf aggregate.argument bindings) := fun bindings member =>
    (meets_argumentValue fun identifier used => .inl (bound bindings member identifier used)
      ).succeeds.value_eq .null
  have argument' : ∀ bindings ∈ members', (argumentValue bindings aggregate.argument).run.value =
      .ok (argumentOf aggregate.argument bindings) :=
    fun bindings member => argument bindings (perm.mem_iff.mpr member)
  have shown : Ordered.Exact Value.same (members.map (argumentOf aggregate.argument)) := by
    refine Value.exact_same indexed fun value member => ?_
    obtain ⟨bindings, inside, rfl⟩ := List.mem_map.mp member
    exact shown_argumentOf (stored bindings inside) aggregate.argument
  have combined := combine_perm counts (perm.map (argumentOf aggregate.argument)) shown
  unfold aggregateValue
  split
  · rw [perm.length_eq]
    exact .refl _
  · have first := Evaluation.run_mapM argument
    have second := Evaluation.run_mapM argument'
    constructor
    · rw [Evaluation.run_bind_of_ok (congrArg Noted.value first),
        Evaluation.run_bind_of_ok (congrArg Noted.value second), combined]
    · refine Evaluation.sameWarnings_bind (congrArg Noted.value first)
        (congrArg Noted.value second) (fun diagnostic => ?_) fun _ => Iff.rfl
      rw [first, second, List.mem_flatMap, List.mem_flatMap]
      simp only [perm.mem_iff]

theorem fillGroupRow_same (indexed : graph.Indexed) (uncollected : Uncollected items)
    (bound : ∀ bindings ∈ members, BindsItems items bindings)
    (stored : ∀ bindings ∈ members, bindings.Stored graph) (perm : members.Perm members')
    (key : List Value) (row : Row) :
    (fillGroupRow members items key row).Same (fillGroupRow members' items key row) := by
  induction items generalizing key row with
  | nil => exact .refl _
  | cons item rest ih =>
      obtain ⟨here, later⟩ := List.forall_mem_cons.mp uncollected
      have boundLater : ∀ bindings ∈ members, BindsItems rest bindings := fun bindings member =>
        (List.forall_mem_cons.mp (bound bindings member)).2
      rw [fillGroupRow, fillGroupRow]
      split
      · rename_i aggregate written
        have used : ∀ bindings ∈ members, ∀ identifier ∈ aggregate.argument.uses,
            (bindings.element? identifier).isSome := by
          intro bindings member identifier inside
          refine bound bindings member item List.mem_cons_self identifier ?_
          rw [written]
          exact inside
        obtain ⟨value, given⟩ := (meets_aggregateValue fun bindings member identifier inside =>
          .inl (used bindings member identifier inside)).succeeds
        exact (aggregateValue_same indexed (here aggregate written) used stored perm).bind given
          (ih later boundLater key _)
      · exact ih later boundLater _ _

/-- The groups of some binding sets, the group of nothing included. -/
structure GroupOf (items : List ReturnItem) (sets : List Bindings) (group : Group) : Prop where
  members : group.members ⊆ sets
  key : group.key = [] ∨ ∃ bindings ∈ sets, group.key = groupingKey items bindings

theorem groupOf_groups {found : List Group}
    (bound : ∀ bindings ∈ sets, BindsItems items bindings)
    (given : (groups items sets).run.value = .ok found) :
    ∀ group ∈ found, GroupOf items sets group := by
  rw [run_groups bound] at given
  obtain rfl := Except.ok.inj given
  split
  · intro group member
    obtain rfl := List.mem_singleton.mp member
    exact ⟨List.nil_subset _, .inl rfl⟩
  · intro group member
    obtain ⟨key, kept, rfl⟩ := List.mem_map.mp member
    obtain ⟨bindings, inside, rfl⟩ :=
      List.mem_map.mp ((Ordered.distinctBy_sublist _ _).subset kept)
    exact ⟨fun _ found => List.mem_of_mem_filter found, .inr ⟨bindings, inside, rfl⟩⟩

theorem shown_rows (uncollected : Uncollected projection.items)
    (bound : ∀ bindings ∈ sets, BindsItems projection.items bindings)
    (stored : ∀ bindings ∈ sets, bindings.Stored graph) {found : List Row}
    (given : (rows projection sets).run.value = .ok found) : ∀ row ∈ found, row.Shown graph := by
  unfold rows at given
  split at given
  · have grouped := congrArg Noted.value (run_groups bound)
    have ofSets := groupOf_groups bound grouped
    have filled : ∀ group ∈ _, (groupRow projection.items group).run.value =
        .ok (groupRowOf projection.items group) := fun group member =>
      value_groupRow fun bindings inside => bound bindings ((ofSets group member).members inside)
    rw [Evaluation.run_bind_of_ok grouped, Evaluation.run_mapM filled] at given
    obtain rfl := Except.ok.inj given
    intro row member
    obtain ⟨group, inside, rfl⟩ := List.mem_map.mp member
    refine shown_fillGroupRow uncollected ?_ (fun _ absent => absurd absent List.not_mem_nil)
      (filled group inside)
    rcases (ofSets group inside).key with empty | ⟨bindings, known, key⟩
    · rw [empty]
      exact fun _ absent => absurd absent List.not_mem_nil
    · rw [key]
      exact shown_groupingKey (stored bindings known)
  · rw [Evaluation.run_mapM fun bindings member => value_plainRow (bound bindings member)] at given
    obtain rfl := Except.ok.inj given
    intro row member
    obtain ⟨bindings, inside, rfl⟩ := List.mem_map.mp member
    exact shown_rowOf (bound bindings inside) (stored bindings inside)

theorem groupingKeys_perm (indexed : graph.Indexed)
    (stored : ∀ bindings ∈ sets, bindings.Stored graph) (perm : sets.Perm others) :
    (Ordered.distinctBy Value.sameItems (sets.map (groupingKey items))).Perm
      (Ordered.distinctBy Value.sameItems (others.map (groupingKey items))) := by
  have exact : Ordered.Exact Value.sameItems (sets.map (groupingKey items)) := by
    refine Value.exact_sameItems indexed fun key member => ?_
    obtain ⟨bindings, inside, rfl⟩ := List.mem_map.mp member
    exact shown_groupingKey (stored bindings inside)
  exact exact.distinctBy_perm (perm.map (groupingKey items))

theorem groupRows_rearranged (indexed : graph.Indexed) (uncollected : Uncollected items)
    (bound : ∀ bindings ∈ sets, BindsItems items bindings)
    (stored : ∀ bindings ∈ sets, bindings.Stored graph) (perm : sets.Perm others) :
    ((groupsBy (groupingKey items) sets).mapM (groupRow items)).Rearranged
      ((groupsBy (groupingKey items) others).mapM (groupRow items)) := by
  rw [groupsBy, groupsBy, List.mapM_map, List.mapM_map]
  refine Evaluation.rearranged_mapM (groupingKeys_perm indexed stored perm) (fun key _ => value_groupRow fun bindings inside =>
    bound bindings (List.mem_of_mem_filter inside)) fun key _ => ?_
  exact fillGroupRow_same indexed uncollected
    (fun bindings inside => bound bindings (List.mem_of_mem_filter inside))
    (fun bindings inside => stored bindings (List.mem_of_mem_filter inside)) (perm.filter _) key []

theorem rows_rearranged (indexed : graph.Indexed) (uncollected : Uncollected projection.items)
    (bound : ∀ bindings ∈ sets, BindsItems projection.items bindings)
    (stored : ∀ bindings ∈ sets, bindings.Stored graph) (perm : sets.Perm others) :
    (rows projection sets).Rearranged (rows projection others) := by
  have bound' : ∀ bindings ∈ others, BindsItems projection.items bindings :=
    fun bindings member => bound bindings (perm.mem_iff.mpr member)
  unfold rows
  split
  · have first := run_groups bound
    have second := run_groups bound'
    refine Evaluation.rearranged_bind (congrArg Noted.value first) (congrArg Noted.value second)
      (fun diagnostic => ?_) ?_
    · rw [first, second, List.mem_flatMap, List.mem_flatMap]
      simp only [perm.mem_iff]
    · -- Both lists of groups are empty, or neither is, so that both have the group of nothing.
      have empty : (groupsBy (groupingKey projection.items) sets).isEmpty =
          (groupsBy (groupingKey projection.items) others).isEmpty := by
        rw [groupsBy, groupsBy, List.isEmpty_map, List.isEmpty_map,
          (groupingKeys_perm indexed stored perm).isEmpty_eq]
      rw [empty]
      split
      · exact Evaluation.rearranged_mapM (List.Perm.refl _)
          (fun group member => value_groupRow fun bindings inside => by
            obtain rfl := List.mem_singleton.mp member
            contradiction) fun _ _ => .refl _
      · exact groupRows_rearranged indexed uncollected bound stored perm
  · exact Evaluation.rearranged_mapM perm
      (fun bindings member => value_plainRow (bound bindings member)) fun _ _ => .refl _

theorem project_rearranged (indexed : graph.Indexed) (uncollected : Uncollected projection.items)
    (bound : ∀ bindings ∈ sets, BindsItems projection.items bindings)
    (stored : ∀ bindings ∈ sets, bindings.Stored graph) (perm : sets.Perm others) :
    (project projection sets).Rearranged (project projection others) := by
  refine (rows_rearranged indexed uncollected bound stored perm).bind fun found found' given same => ?_
  have exact := Row.exact_same indexed (shown_rows uncollected bound stored given)
  split
  · exact Evaluation.rearranged_pure (exact.distinctBy_perm same)
  · exact Evaluation.rearranged_pure same

end Evaluate

namespace Query

variable {graph : Graph} {other : Snapshot} {maxDepth : Nat} {query : Query}

theorem rows_rearranged (indexed : graph.Indexed) (rearranged : graph.snapshot.Rearranged other)
    (accepted : query.check = .ok ()) (uncollected : Evaluate.Uncollected query.projection.items)
    (judged : ∀ bindings ∈ (Match.patterns graph.snapshot maxDepth query.patterns).value,
      ∃ holds, Evaluate.verdict query.condition bindings = .ok holds) :
    (query.rows graph.snapshot maxDepth).Rearranged (query.rows other maxDepth) := by
  obtain ⟨last, introduced, _⟩ := check_eq_ok_iff.mp accepted
  have matched := Match.patterns_rearranged rearranged maxDepth query.patterns
  refine (Evaluation.rearranged_lift matched).bind fun sets others given perm => ?_
  obtain rfl : (Match.patterns graph.snapshot maxDepth query.patterns).value = sets :=
    Except.ok.inj given
  refine (Evaluate.filter_rearranged judged perm).bind fun kept kept' filtered perm => ?_
  obtain rfl := Except.ok.inj ((Evaluate.filter_of_ok judged).symm.trans filtered)
  exact Evaluate.project_rearranged indexed uncollected
    (fun bindings member => (bindsUses_of_check accepted).items (List.mem_of_mem_filter member))
    (fun bindings member => Match.stored_of_found indexed introduced bindings
      (List.mem_of_mem_filter member)) perm

/-- On two graphs with the same nodes and the same edges a checked query that collects nothing
refuses twice, or it answers with the same rows in another order and the same warnings. -/
theorem run_perm_of_same_elements (changes changes' : List Graph.Change)
    (nodes : ∀ node, node ∈ (Graph.ofChanges changes).nodes.toList ↔
      node ∈ (Graph.ofChanges changes').nodes.toList)
    (edges : ∀ edge, edge ∈ (Graph.ofChanges changes).edges.toList ↔
      edge ∈ (Graph.ofChanges changes').edges.toList)
    (maxDepth : Nat) {query : Query} (accepted : query.check = .ok ())
    (uncollected : Evaluate.Uncollected query.projection.items) :
    ∃ table table', query.run (Graph.ofChanges changes).snapshot maxDepth = .ok table ∧
      query.run (Graph.ofChanges changes').snapshot maxDepth = .ok table' ∧
      ((table.Refused ∧ table'.Refused) ∨
        (table.Answers query.projection ∧ table'.Answers query.projection ∧
          table.rows.Perm table'.rows ∧ table.diagnostics.Perm table'.diagnostics)) := by
  have indexed := Graph.indexed_ofChanges changes
  have rearranged := indexed.snapshot_rearranged (Graph.indexed_ofChanges changes') nodes edges
  have matched := (Match.patterns_rearranged rearranged maxDepth query.patterns).value
  have bound {graph : Snapshot} : query.BindsUses graph maxDepth := bindsUses_of_check accepted
  rcases Evaluate.judged_or_failed query.condition
    (Match.patterns (Graph.ofChanges changes).snapshot maxDepth query.patterns).value with
    judged | ⟨bindings, member, error, failing⟩
  · have found := rows_rearranged indexed rearranged accepted uncollected judged
    obtain ⟨rows, rows', given, given', perm⟩ := found.value
    obtain ⟨table, ran, answers, tableRows, noted⟩ := run_answers bound.meets given
    obtain ⟨table', ran', answers', tableRows', noted'⟩ := run_answers bound.meets given'
    refine ⟨table, table', ran, ran', .inr ⟨answers, answers', ?_, ?_⟩⟩
    · rwa [tableRows, tableRows']
    · rw [noted, noted']
      exact Ordered.eraseDups_perm found.warnings
  · obtain ⟨_, failed⟩ := Evaluate.filter_of_error member failing
    obtain ⟨_, failed'⟩ := Evaluate.filter_of_error (matched.mem_iff.mp member) failing
    obtain ⟨table, ran, refused, _⟩ := run_of_misjudged bound failed
    obtain ⟨table', ran', refused', _⟩ := run_of_misjudged bound failed'
    exact ⟨table, table', ran, ran', .inl ⟨refused, refused'⟩⟩

def linkFromA : Edge where
  id := "a-b"
  type := "LINKS_TO"
  source := "a"
  target := "b"

def linkFromC : Edge where
  id := "c-b"
  type := "LINKS_TO"
  source := "c"
  target := "b"

/-- Two documents that link to a third. -/
def linked : List Graph.Change :=
  [.node { id := "a" }, .node { id := "b" }, .node { id := "c" }, .edge linkFromA, .edge linkFromC]

/-- The same documents and links, the other way round. -/
def linkedBack : List Graph.Change :=
  [.node { id := "c" }, .node { id := "b" }, .node { id := "a" }, .edge linkFromC, .edge linkFromA]

/-- `MATCH (n)-->(m) RETURN DISTINCT n.id, COUNT(DISTINCT m)` -/
def outward : Query :=
  let n : Identifier := { name := "n", position := {} }
  let m : Identifier := { name := "m", position := {} }
  let reached : Aggregate := { function := .count, distinct := true, argument := .element m }
  { patterns := [{
      start := { binder := n }
      hops := [{ relationship := { direction := .forward }, node := { binder := m } }] }]
    condition := none
    projection := {
      distinct := true
      items := [{ expression := .property { owner := n, property := "id" } },
        { expression := .aggregate reached }] } }

/-- The groups come in another order. -/
theorem run_perm_of_same_elements_linked :
    outward.check = .ok () ∧ Evaluate.Uncollected outward.projection.items ∧
    ∃ table table', outward.run (Graph.ofChanges linked).snapshot 1 = .ok table ∧
      outward.run (Graph.ofChanges linkedBack).snapshot 1 = .ok table' ∧
      table.rows.Perm table'.rows ∧
      table.rows = [[("n.id", .string "a"), ("COUNT(DISTINCT m)", .integer 1)],
        [("n.id", .string "c"), ("COUNT(DISTINCT m)", .integer 1)]] ∧
      table'.rows = [[("n.id", .string "c"), ("COUNT(DISTINCT m)", .integer 1)],
        [("n.id", .string "a"), ("COUNT(DISTINCT m)", .integer 1)]] := by
  have accepted : outward.check = .ok () := rfl
  have uncollected : Evaluate.Uncollected outward.projection.items := by
    intro item member aggregate written
    rcases List.mem_pair.mp member with rfl | rfl
    · contradiction
    · obtain rfl := ReturnExpression.aggregate.inj written
      simp
  have nodes : (Graph.ofChanges linked).nodes.toList =
      [{ id := "a" }, { id := "b" }, { id := "c" }] := rfl
  have nodesBack : (Graph.ofChanges linkedBack).nodes.toList =
      [{ id := "c" }, { id := "b" }, { id := "a" }] := rfl
  have edges : (Graph.ofChanges linked).edges.toList = [linkFromA, linkFromC] := rfl
  have edgesBack : (Graph.ofChanges linkedBack).edges.toList = [linkFromC, linkFromA] := rfl
  obtain ⟨table, table', ran, ran', outcome⟩ := run_perm_of_same_elements linked linkedBack
    (fun node => by rw [nodes, nodesBack]; exact List.mem_reverse.symm)
    (fun edge => by rw [edges, edgesBack]; exact List.mem_reverse.symm) 1 accepted uncollected
  have rows : table.rows = [[("n.id", .string "a"), ("COUNT(DISTINCT m)", .integer 1)],
      [("n.id", .string "c"), ("COUNT(DISTINCT m)", .integer 1)]] :=
    Except.ok.inj ((congrArg (Except.map Table.rows) ran).symm.trans rfl)
  have rows' : table'.rows = [[("n.id", .string "c"), ("COUNT(DISTINCT m)", .integer 1)],
      [("n.id", .string "a"), ("COUNT(DISTINCT m)", .integer 1)]] :=
    Except.ok.inj ((congrArg (Except.map Table.rows) ran').symm.trans rfl)
  refine ⟨accepted, uncollected, table, table', ran, ran', ?_, rows, rows'⟩
  rcases outcome with ⟨refused, _⟩ | ⟨_, _, perm, _⟩
  · exact absurd (rows.symm.trans refused.rows) (List.cons_ne_nil _ _)
  · exact perm

end Query

end DocumentGraph
