import DocumentGraph.Proofs.Evaluate.Collected
import DocumentGraph.Proofs.Query.Column
import DocumentGraph.Proofs.Query.RoundTrip

namespace DocumentGraph

open Match (Bindings)
open Query (Aggregate AggregateArgument Identifier Projection PropertyAccess ReturnExpression
  ReturnItem)

/-! What the items of a query show.

Without aliases, only items with the same expression share a column, and up to places an expression
alone decides the value of its item.  So whatever else fills its column, an item finds its own value
there: what it is on the binding set of the row or, in the row of a group, its part of the key or
its aggregate of the members.
-/

namespace Row

/-- The row shows the values of the items on a binding set, each in the column of its item. -/
def ShowsItems (row : Row) (items : List ReturnItem) (bindings : Bindings) : Prop :=
  ∀ item ∈ items, ∃ value, (Evaluate.itemValue bindings item.expression).run.value = .ok value ∧
    row.get? item.columnName = some value

/-- The row shows the key of a group in the columns of the items that are no aggregates, in order,
and the values of the aggregates on the members, each in the column of its item. -/
structure ShowsGroup (row : Row) (items : List ReturnItem) (group : Evaluate.Group) : Prop where
  key : (items.filter fun item => !item.expression.isAggregate).map
    (fun item => row.get? item.columnName) = group.key.map some
  members : ∀ bindings ∈ group.members, ∃ key,
    (Evaluate.groupKey items bindings).run.value = .ok key ∧ Value.sameItems group.key key = true
  aggregates : ∀ item ∈ items, ∀ aggregate, item.expression = .aggregate aggregate →
    ∃ value, (Evaluate.aggregateValue group.members aggregate).run.value = .ok value ∧
      row.get? item.columnName = some value

end Row

namespace Evaluate

variable {items : List ReturnItem} {bindings first : Bindings} {members sets : List Bindings}
  {projection : Projection} {group : Group}

theorem valueOr_property_unplaced (bindings : Bindings) (access : PropertyAccess) :
    (property bindings access.unplaced).valueOr .null =
      (property bindings access).valueOr .null := by
  have found : bindings.element? access.unplaced.owner = bindings.element? access.owner := rfl
  unfold property element
  rw [found]
  cases bindings.element? access.owner with
  | none => rfl
  | some element => rfl

theorem valueOr_variableValue_unplaced (bindings : Bindings) (identifier : Identifier) :
    (variableValue bindings identifier.unplaced).valueOr .null =
      (variableValue bindings identifier).valueOr .null := by
  have found : bindings.element? identifier.unplaced = bindings.element? identifier := rfl
  unfold variableValue element
  rw [found]
  cases bindings.element? identifier with
  | none => rfl
  | some element => rfl

theorem argumentOf_unplaced (argument : AggregateArgument) (bindings : Bindings) :
    argumentOf argument.unplaced bindings = argumentOf argument bindings := by
  cases argument with
  | star => rfl
  | property access => exact valueOr_property_unplaced bindings access
  | element identifier => exact valueOr_variableValue_unplaced bindings identifier

theorem aggregateOf_unplaced (members : List Bindings) (aggregate : Aggregate) :
    aggregateOf members aggregate.unplaced = aggregateOf members aggregate := by
  obtain ⟨function, distinct, argument⟩ := aggregate
  cases argument with
  | star => rfl
  | property access =>
      exact congrArg (combine _ ·) (congrArg members.map
        (funext (argumentOf_unplaced (.property access))))
  | element identifier =>
      exact congrArg (combine _) (congrArg members.map
        (funext (argumentOf_unplaced (.element identifier))))

theorem cellOf_unplaced (first : Bindings) (members : List Bindings) (item : ReturnItem) :
    cellOf first members item.unplaced = cellOf first members item := by
  obtain ⟨expression, columnAlias⟩ := item
  cases expression with
  | property access => exact valueOr_property_unplaced first access
  | element identifier => exact valueOr_variableValue_unplaced first identifier
  | aggregate aggregate => exact aggregateOf_unplaced members aggregate

theorem cellOf_eq_of_unplaced {left right : ReturnItem}
    (same : left.expression.unplaced = right.expression.unplaced) :
    cellOf first members left = cellOf first members right := by
  have cells (item : ReturnItem) :
      cellOf first members item = cellOf first members { expression := item.expression.unplaced } :=
    (cellOf_unplaced first members item).symm
  rw [cells left, cells right, same]

/-- Items that share a column have the same expression, up to places. -/
def Lossless (items : List ReturnItem) : Prop :=
  ∀ left ∈ items, ∀ right ∈ items, left.columnName = right.columnName →
    left.expression.unplaced = right.expression.unplaced

/-- Every column has a last item that fills it. -/
theorem exists_lastIn {column : String} (filled : column ∈ names items) :
    ∃ last ∈ items, last.LastIn items ∧ last.columnName = column := by
  induction items with
  | nil => contradiction
  | cons item rest ih =>
      by_cases later : column ∈ names rest
      · obtain ⟨last, inside, ⟨before, behind, rfl, absent⟩, same⟩ := ih later
        exact ⟨last, List.mem_cons_of_mem item inside, ⟨item :: before, behind, rfl, absent⟩, same⟩
      · obtain rfl := (List.mem_cons.mp filled).resolve_right later
        exact ⟨item, List.mem_cons_self, ⟨[], rest, rfl, later⟩, rfl⟩

/-- The item that fills a column last has the same cell as every other item of the column. -/
theorem get?_fillRow_cellOf (lossless : Lossless items) {item : ReturnItem} (member : item ∈ items)
    (first : Bindings) (members : List Bindings) :
    (fillRow items (cellOf first members) []).get? item.columnName =
      some (cellOf first members item) := by
  obtain ⟨last, inside, final, same⟩ :=
    exists_lastIn (List.mem_map_of_mem member : item.columnName ∈ names items)
  have cells : cellOf first members last = cellOf first members item :=
    cellOf_eq_of_unplaced (lossless last inside item member same)
  rw [← same, get?_fillRow final, cells]

theorem showsItems_rowOf (lossless : Lossless items)
    (plain : ∀ item ∈ items, item.expression.isAggregate = false)
    (bound : BindsItems items bindings) : (rowOf items bindings).ShowsItems items bindings := by
  intro item member
  have filled : rowOf items bindings = fillRow items (cellOf bindings []) [] := by
    rw [rowOf_eq_foldl bound, fillRow]
    refine List.foldl_ext _ _ _ fun row other inside => ?_
    rw [cellOf_unaggregated (plain other inside)]
  refine ⟨itemOf bindings item, value_itemValue bound item member, ?_⟩
  rw [filled, get?_fillRow_cellOf lossless member, cellOf_unaggregated (plain item member)]

theorem showsGroup_groupRowOf (lossless : Lossless items)
    (bound : ∀ bindings ∈ sets, BindsItems items bindings) (found : group ∈ groupsOf items sets) :
    (groupRowOf items group).ShowsGroup items group := by
  obtain ⟨first, key, filled⟩ := exists_fillRow bound found
  have shown (item : ReturnItem) (member : item ∈ items) :
      (groupRowOf items group).get? item.columnName = some (cellOf first group.members item) := by
    rw [filled, get?_fillRow_cellOf lossless member]
  constructor
  case key =>
    rw [key, groupingKey, List.map_map]
    refine List.map_congr_left fun item kept => ?_
    obtain ⟨member, unaggregated⟩ := List.mem_filter.mp kept
    rw [shown item member, cellOf_unaggregated (by simpa using unaggregated)]
    rfl
  case members =>
    intro bindings inside
    obtain ⟨member, same⟩ := mem_group found inside
    exact ⟨_, value_groupKey (bound bindings member), same⟩
  case aggregates =>
    intro item member aggregate written
    refine ⟨aggregateOf group.members aggregate, value_aggregateValue ?_, ?_⟩
    · intro bindings inside identifier used
      refine bound bindings (mem_group found inside).1 item member identifier ?_
      rw [written]
      exact used
    · rw [shown item member, cellOf_aggregate written]

theorem value_rows_of_plain (plain : projection.hasAggregate = false)
    (bound : ∀ bindings ∈ sets, BindsItems projection.items bindings) :
    (rows projection sets).run.value = .ok (sets.map (rowOf projection.items)) := by
  rw [rows, if_neg (by simp [plain])]
  exact congrArg Noted.value
    (Evaluation.run_mapM fun bindings member => value_plainRow (bound bindings member))

end Evaluate

namespace Query

/-- The rows of a table are those of binding sets or of groups, without repetitions if the query
asks for distinct ones, and show all items of the query. -/
structure ShowsItems (query : Query) (table : Table) (kept : List Bindings) (rows : List Row) :
    Prop where
  plain : query.projection.hasAggregate = false →
    List.Forall₂ (fun bindings row => row.ShowsItems query.projection.items bindings) kept rows
  grouped : query.projection.hasAggregate = true → ∃ groups,
    (Evaluate.groups query.projection.items kept).run.value = .ok groups ∧
      List.Forall₂ (fun group row => row.ShowsGroup query.projection.items group) groups rows
  found : table.rows = if query.projection.distinct then rows.eraseDupsBy Row.same else rows

variable {graph : Snapshot} {maxDepth : Nat} {query : Query} {kept : List Bindings}

/-- The rows that a query makes of what it keeps. -/
theorem BindsUses.exists_rows (bound : query.BindsUses graph maxDepth)
    (lossless : Evaluate.Lossless query.projection.items)
    (within : kept ⊆ (Match.patterns graph maxDepth query.patterns).value) :
    ∃ rows, (Evaluate.rows query.projection kept).run.value = .ok rows ∧
      ∀ table : Table, (table.rows = if query.projection.distinct then rows.eraseDupsBy Row.same
        else rows) → query.ShowsItems table kept rows := by
  have binds : ∀ bindings ∈ kept, Evaluate.BindsItems query.projection.items bindings :=
    fun bindings member => bound.items (within member)
  cases aggregates : query.projection.hasAggregate with
  | false =>
      have plain : ∀ item ∈ query.projection.items, item.expression.isAggregate = false := by
        intro item member
        exact Bool.eq_false_iff.mpr (List.any_eq_false.mp aggregates item member)
      refine ⟨_, Evaluate.value_rows_of_plain aggregates binds, fun table found =>
        ⟨fun _ => ?_, fun grouped => ?_, found⟩⟩
      · rw [List.forall₂_map_right_iff, List.forall₂_same]
        exact fun bindings member =>
          Evaluate.showsItems_rowOf lossless plain (binds bindings member)
      · rw [aggregates] at grouped
        contradiction
  | true =>
      refine ⟨_, Evaluate.value_rows_of_aggregate aggregates binds, fun table found =>
        ⟨fun plain => ?_, fun _ => ⟨_, Evaluate.value_groups binds, ?_⟩, found⟩⟩
      · rw [aggregates] at plain
        contradiction
      · rw [Evaluate.groupRows, List.forall₂_map_right_iff, List.forall₂_same]
        exact fun group found => Evaluate.showsGroup_groupRowOf lossless binds found

/-- Without aliases, items share a column only if they have the same expression, up to places, and
every row shows every item's own value in its column. -/
theorem run_shows_items {source : String} (prepared : prepare source = .ok query)
    (unnamed : ∀ item ∈ query.projection.items, item.columnAlias = none) (graph : Snapshot)
    (maxDepth : Nat) :
    (∀ left ∈ query.projection.items, ∀ right ∈ query.projection.items,
      left.columnName = right.columnName →
        left.expression.unplaced = right.expression.unplaced) ∧
    ∃ table, query.run graph maxDepth = .ok table ∧
      (table.Refused ∨ table.Answers query.projection ∧ ∃ kept rows,
        (Evaluate.filter query.condition
          (Match.patterns graph maxDepth query.patterns).value).run.value = .ok kept ∧
        query.ShowsItems table kept rows) := by
  have formed := wellFormed_of_prepare prepared
  have lossless := formed.unplaced_eq_of_columnName unnamed
  have bound : query.BindsUses graph maxDepth := bindsUses_of_check formed.checked
  refine ⟨lossless, ?_⟩
  rcases Evaluate.kept_or_failed query.condition
      (Match.patterns graph maxDepth query.patterns).value with
    ⟨kept, ended, within⟩ | ⟨error, failed⟩
  · obtain ⟨rows, given, shows⟩ := bound.exists_rows lossless within
    have found : (query.rows graph maxDepth).run.value = _ := value_rows
    rw [ended] at found
    obtain ⟨table, ran, answers, same, _⟩ :=
      run_answers bound.meets (found.trans (Evaluate.value_project_of_rows given))
    exact ⟨table, ran, .inr ⟨answers, kept, rows, ended, shows table same⟩⟩
  · obtain ⟨table, ran, refused, _⟩ := run_of_misjudged bound failed
    exact ⟨table, ran, .inl refused⟩

/-- `MATCH (n) RETURN n.team, COUNT(n.rank), n.team` -/
def teamTwice : Query where
  patterns := [{
    start := {
      binder := some { name := "n", position := { offset := 7, line := 1, column := 8 } }
      position := { offset := 6, line := 1, column := 7 } }
    hops := [] }]
  condition := none
  projection := {
    distinct := false
    items := [
      { expression := .property {
          owner := { name := "n", position := { offset := 17, line := 1, column := 18 } }
          property := "team" } },
      { expression := .aggregate {
          function := .count
          distinct := false
          argument := .property {
            owner := { name := "n", position := { offset := 31, line := 1, column := 32 } }
            property := "rank" } } },
      { expression := .property {
          owner := { name := "n", position := { offset := 40, line := 1, column := 41 } }
          property := "team" } }] }

theorem run_shows_teamTwice :
    prepare "MATCH (n) RETURN n.team, COUNT(n.rank), n.team" = .ok teamTwice ∧
      (∀ item ∈ teamTwice.projection.items, item.columnAlias = none) ∧
      ∃ table kept rows, teamTwice.run rankedMembers 1 = .ok table ∧
        teamTwice.ShowsItems table kept rows ∧ table.rows = [
          [("n.team", .string "x"), ("COUNT(n.rank)", .integer 2)],
          [("n.team", .string "y"), ("COUNT(n.rank)", .integer 1)]] := by
  have prepared : prepare "MATCH (n) RETURN n.team, COUNT(n.rank), n.team" = .ok teamTwice := by
    decide +kernel
  have unnamed : ∀ item ∈ teamTwice.projection.items, item.columnAlias = none := by
    decide
  obtain ⟨_, table, ran, refused | ⟨_, kept, rows, _, shows⟩⟩ :=
    run_shows_items prepared unnamed rankedMembers 1
  · obtain rfl := Except.ok.inj (ran.symm.trans rfl)
    exact nomatch refused.rows
  · refine ⟨prepared, unnamed, table, kept, rows, ran, shows, ?_⟩
    exact Except.ok.inj ((congrArg (Except.map Table.rows) ran).symm.trans rfl)

end Query

end DocumentGraph
