import DocumentGraph.Proofs.Evaluate.Dealt
import DocumentGraph.Proofs.Evaluate.Shown

namespace DocumentGraph

open Match (Bindings)
open Query (Aggregate AggregateArgument AggregateFunction Condition Projection ReturnExpression
  ReturnItem)

/-! Aggregates of groups.

A query with aggregates deals the binding sets that it keeps out to groups, one after the other.  So
what COLLECT makes of an argument in all groups is dealt out in the same way, and the other
aggregates of the argument count and thin out what COLLECT makes of it in their group.
-/

/-- The item is the last one to fill its column. -/
def Query.ReturnItem.LastIn (item : ReturnItem) (items : List ReturnItem) : Prop :=
  ∃ before behind, items = before ++ item :: behind ∧ item.columnName ∉ Evaluate.names behind

namespace Evaluate

variable {items : List ReturnItem} {bindings first : Bindings} {members sets : List Bindings}
  {aggregate : Aggregate} {argument : AggregateArgument} {group : Group}

def fillRow (items : List ReturnItem) (cell : ReturnItem → Value) (row : Row) : Row :=
  items.foldl (fun (row : Row) item => row.put item.columnName (cell item)) row

theorem get?_fillRow_of_not_mem {column : String} (absent : column ∉ names items)
    (cell : ReturnItem → Value) (row : Row) :
    (fillRow items cell row).get? column = row.get? column := by
  induction items generalizing row with
  | nil => rfl
  | cons item rest ih =>
      obtain ⟨different, later⟩ := List.ne_and_not_mem_of_not_mem_cons absent
      rw [fillRow, List.foldl_cons, ← fillRow, ih later]
      exact Ordered.lookup_put_of_ne different _ row

theorem get?_fillRow {item : ReturnItem} (last : item.LastIn items) (cell : ReturnItem → Value)
    (row : Row) : (fillRow items cell row).get? item.columnName = some (cell item) := by
  obtain ⟨before, behind, rfl, absent⟩ := last
  rw [fillRow, List.foldl_append, List.foldl_cons, ← fillRow, get?_fillRow_of_not_mem absent]
  exact Ordered.lookup_put_self _ _ _

theorem value_argumentValue
    (bound : ∀ identifier ∈ argument.uses, (bindings.element? identifier).isSome) :
    (argumentValue bindings argument).run.value = .ok (argumentOf argument bindings) :=
  (meets_argumentValue fun identifier used => .inl (bound identifier used)).succeeds.value_eq .null

/-- What an aggregate makes of the members of a group. -/
def aggregateOf (members : List Bindings) (aggregate : Aggregate) : Value :=
  match aggregate.argument with
  | .star => .integer members.length
  | argument => combine aggregate (members.map (argumentOf argument))

theorem aggregateOf_star (all : aggregate.argument = .star) :
    aggregateOf members aggregate = .integer members.length := by
  rw [aggregateOf, all]

theorem aggregateOf_of_ne (named : aggregate.argument ≠ .star) :
    aggregateOf members aggregate =
      combine aggregate (members.map (argumentOf aggregate.argument)) := by
  unfold aggregateOf
  split
  · contradiction
  · rfl

theorem value_aggregateValue (bound : ∀ bindings ∈ members,
      ∀ identifier ∈ aggregate.argument.uses, (bindings.element? identifier).isSome) :
    (aggregateValue members aggregate).run.value = .ok (aggregateOf members aggregate) := by
  have each := Evaluation.run_mapM fun bindings member => value_argumentValue (bound bindings member)
  unfold aggregateValue
  split
  · rename_i all
    rw [aggregateOf_star all]
    rfl
  · rename_i named
    rw [Evaluation.value_run_bind, each, aggregateOf_of_ne named]
    rfl

/-- The value of an item in the row of a group with the key of a binding set. -/
def cellOf (first : Bindings) (members : List Bindings) (item : ReturnItem) : Value :=
  match item.expression with
  | .aggregate aggregate => aggregateOf members aggregate
  | _ => itemOf first item

theorem cellOf_aggregate {item : ReturnItem} (written : item.expression = .aggregate aggregate) :
    cellOf first members item = aggregateOf members aggregate := by
  rw [cellOf, written]

theorem cellOf_unaggregated {item : ReturnItem} (plain : item.expression.isAggregate = false) :
    cellOf first members item = itemOf first item := by
  unfold cellOf
  split
  · rename_i written
    rw [written] at plain
    contradiction
  · rfl

theorem value_fillGroupRow (bound : ∀ bindings ∈ members, BindsItems items bindings)
    (first : Bindings) (row : Row) :
    (fillGroupRow members items (groupingKey items first) row).run.value =
      .ok (fillRow items (cellOf first members) row) := by
  induction items generalizing row with
  | nil => rfl
  | cons item rest ih =>
      have later : ∀ bindings ∈ members, BindsItems rest bindings := fun bindings member =>
        (List.forall_mem_cons.mp (bound bindings member)).2
      rw [fillGroupRow, fillRow, List.foldl_cons, ← fillRow]
      split
      · rename_i aggregate written
        have counted : (aggregateValue members aggregate).run.value =
            .ok (aggregateOf members aggregate) := by
          refine value_aggregateValue fun bindings member identifier used => ?_
          refine bound bindings member item List.mem_cons_self identifier ?_
          rw [written]
          exact used
        have key : groupingKey (item :: rest) first = groupingKey rest first := by
          simp [groupingKey, written, ReturnExpression.isAggregate]
        rw [Evaluation.value_run_bind, counted, key, cellOf_aggregate written]
        exact ih later _
      · rename_i other
        have plain : item.expression.isAggregate = false := by
          cases written : item.expression with
          | aggregate aggregate => exact absurd written (other aggregate)
          | _ => rfl
        have key : groupingKey (item :: rest) first = itemOf first item :: groupingKey rest first := by
          simp [groupingKey, plain]
        rw [key, List.tail_cons, List.headD_cons, cellOf_unaggregated plain]
        exact ih later _

/-- The rows of all groups. -/
def groupRows (items : List ReturnItem) (sets : List Bindings) : List Row :=
  (groupsOf items sets).map (groupRowOf items)

theorem forall₂_groupRows {relates : List Bindings → Row → Prop}
    (each : ∀ group ∈ groupsOf items sets, relates group.members (groupRowOf items group)) :
    List.Forall₂ relates (parts items sets) (groupRows items sets) := by
  rw [parts, groupRows, List.forall₂_map_left_iff, List.forall₂_map_right_iff, List.forall₂_same]
  exact each

/-- Of no binding sets, aggregates alone make one row, and other items with them none. -/
theorem groupRows_nil (items : List ReturnItem) :
    (groupRows items []).length = if items.all (·.expression.isAggregate) then 1 else 0 := by
  rw [groupRows, List.length_map]
  rcases groupsOf_cases items [] with ⟨_, all, one⟩ | ⟨some, keyed⟩
  · rw [one, if_pos all]
    rfl
  · rw [keyed, if_neg fun all => some ⟨rfl, all⟩]
    rfl

theorem value_rows_of_aggregate {projection : Projection}
    (aggregates : projection.hasAggregate = true)
    (bound : ∀ bindings ∈ sets, BindsItems projection.items bindings) :
    (rows projection sets).run.value = .ok (groupRows projection.items sets) := by
  have filled : ∀ group ∈ groupsOf projection.items sets,
      (groupRow projection.items group).run.value = .ok (groupRowOf projection.items group) :=
    fun group found => value_groupRow fun bindings member =>
      bound bindings (mem_group found member).1
  rw [rows, if_pos aggregates, Evaluation.value_run_bind, value_groups bound]
  exact congrArg Noted.value (Evaluation.run_mapM filled)

theorem value_project_of_rows {projection : Projection} {found : List Row}
    (given : (rows projection sets).run.value = .ok found) :
    (project projection sets).run.value =
      .ok (if projection.distinct then found.eraseDupsBy Row.same else found) := by
  rw [project, Evaluation.value_run_bind, given,
    ← Ordered.distinctBy_eq_eraseDupsBy Row.same_comm]
  rfl

theorem value_project_of_aggregate {projection : Projection}
    (aggregates : projection.hasAggregate = true)
    (bound : ∀ bindings ∈ sets, BindsItems projection.items bindings) :
    (project projection sets).run.value = .ok (if projection.distinct then
        (groupRows projection.items sets).eraseDupsBy Row.same
      else groupRows projection.items sets) :=
  value_project_of_rows (value_rows_of_aggregate aggregates bound)

theorem groupRowOf_eq (bound : ∀ bindings ∈ group.members, BindsItems items bindings)
    (key : group.key = groupingKey items first) :
    groupRowOf items group = fillRow items (cellOf first group.members) [] := by
  have filled := value_fillGroupRow bound first []
  rw [← key] at filled
  exact Except.ok.inj ((value_groupRow bound).symm.trans filled)

end Evaluate

namespace Row

variable {items : List ReturnItem}

/-- Every item with the expression, if it is the last of its column, shows the value there. -/
def Shows (row : Row) (items : List ReturnItem) (expression : ReturnExpression)
    (value : Value) : Prop :=
  ∀ item : ReturnItem, item.LastIn items → item.expression = expression →
    row.get? item.columnName = some value

/-- The row shows the values that decide the group of a binding set. -/
def ShowsKey (row : Row) (items : List ReturnItem) (member : Bindings) : Prop :=
  ∀ item : ReturnItem, item.LastIn items → item.expression.isAggregate = false →
    ∃ value, row.get? item.columnName = some value ∧
      value.same (Evaluate.itemOf member item) = true

/-- The row shows the aggregates of an argument that has some values in a group. -/
structure Aggregates (row : Row) (items : List ReturnItem) (argument : AggregateArgument)
    (values : List Value) : Prop where
  collect : row.Shows items (.aggregate ⟨.collect, false, argument⟩) (.list values)
  countAll : row.Shows items (.aggregate ⟨.count, false, .star⟩) (.integer values.length)
  count : row.Shows items (.aggregate ⟨.count, false, argument⟩)
    (.integer (values.countP fun value => !value.isNull))
  collectDistinct : row.Shows items (.aggregate ⟨.collect, true, argument⟩)
    (.list (values.eraseDupsBy Value.same))
  countDistinct : row.Shows items (.aggregate ⟨.count, true, argument⟩)
    (.integer ((values.eraseDupsBy Value.same).countP fun value => !value.isNull))

end Row

namespace Evaluate

variable {items : List ReturnItem} {first : Bindings} {members sets : List Bindings}
  {aggregate : Aggregate} {argument : AggregateArgument} {group : Group}

theorem shows_fillRow (items : List ReturnItem) (first : Bindings) (members : List Bindings)
    (aggregate : Aggregate) :
    (fillRow items (cellOf first members) []).Shows items (.aggregate aggregate)
      (aggregateOf members aggregate) := by
  intro item last written
  rw [get?_fillRow last, cellOf_aggregate written]

theorem aggregates_fillRow (named : argument ≠ .star) :
    (fillRow items (cellOf first members) []).Aggregates items argument
      (members.map (argumentOf argument)) := by
  have distinct (values : List Value) :
      values.eraseDupsBy Value.same = Ordered.distinctBy Value.same values :=
    (Ordered.distinctBy_eq_eraseDupsBy Value.same_comm values).symm
  have shows (function : AggregateFunction) (distinct : Bool) :
      (fillRow items (cellOf first members) []).Shows items
        (.aggregate ⟨function, distinct, argument⟩)
        (combine ⟨function, distinct, argument⟩ (members.map (argumentOf argument))) := by
    have shown := shows_fillRow items first members ⟨function, distinct, argument⟩
    rwa [aggregateOf_of_ne named] at shown
  have counted : (fillRow items (cellOf first members) []).Shows items
      (.aggregate ⟨.count, false, .star⟩)
      (.integer (members.map (argumentOf argument)).length) := by
    have counted := shows_fillRow items first members ⟨.count, false, .star⟩
    rwa [aggregateOf_star rfl, ← List.length_map (argumentOf argument)] at counted
  exact {
    collect := shows .collect false
    countAll := counted
    count := shows .count false
    collectDistinct := by
      rw [distinct]
      exact shows .collect true
    countDistinct := by
      rw [distinct]
      exact shows .count true }

theorem same_itemOf {left right : Bindings} {item : ReturnItem}
    (same : Value.sameItems (groupingKey items left) (groupingKey items right) = true)
    (member : item ∈ items) (plain : item.expression.isAggregate = false) :
    (itemOf left item).same (itemOf right item) = true := by
  rw [groupingKey, groupingKey, Value.sameItems_map, List.all_eq_true] at same
  exact same item (List.mem_filter.mpr ⟨member, by simp [plain]⟩)

theorem showsKey_fillRow {member : Bindings}
    (same : Value.sameItems (groupingKey items first) (groupingKey items member) = true) :
    (fillRow items (cellOf first members) []).ShowsKey items member := by
  intro item last plain
  have inside : item ∈ items := by
    obtain ⟨before, behind, rfl, _⟩ := last
    exact List.mem_append_right _ List.mem_cons_self
  refine ⟨itemOf first item, ?_, same_itemOf same inside plain⟩
  rw [get?_fillRow last, cellOf_unaggregated plain]

/-- Rows that show their whole keys are told apart like these. -/
theorem same_fillRow {left right : Bindings} {others : List Bindings}
    (visible : ∀ item ∈ items, item.expression.isAggregate = false → item.LastIn items)
    (same : (fillRow items (cellOf left members) []).same
      (fillRow items (cellOf right others) []) = true) :
    Value.sameItems (groupingKey items left) (groupingKey items right) = true := by
  rw [groupingKey, groupingKey, Value.sameItems_map, List.all_eq_true]
  intro item kept
  obtain ⟨member, unaggregated⟩ := List.mem_filter.mp kept
  have plain : item.expression.isAggregate = false := by simpa using unaggregated
  have last := visible item member plain
  have shows := get?_fillRow last (cellOf left members) []
  have shows' := get?_fillRow last (cellOf right others) []
  rw [cellOf_unaggregated plain] at shows shows'
  exact Row.same_get? same shows shows'

section Bound

variable (bound : ∀ bindings ∈ sets, BindsItems items bindings)

include bound

/-- The row of a group is filled with its key and its aggregates. -/
theorem exists_fillRow (found : group ∈ groupsOf items sets) :
    ∃ first, group.key = groupingKey items first ∧
      groupRowOf items group = fillRow items (cellOf first group.members) [] := by
  obtain ⟨first, key⟩ := exists_key_eq found
  exact ⟨first, key, groupRowOf_eq
    (fun bindings member => bound bindings (mem_group found member).1) key⟩

theorem aggregates_groupRowOf (found : group ∈ groupsOf items sets) (named : argument ≠ .star) :
    (groupRowOf items group).Aggregates items argument
      (group.members.map (argumentOf argument)) := by
  obtain ⟨first, _, filled⟩ := exists_fillRow bound found
  rw [filled]
  exact aggregates_fillRow named

theorem showsKey_groupRowOf (found : group ∈ groupsOf items sets) :
    ∀ member ∈ group.members, (groupRowOf items group).ShowsKey items member := by
  intro member inside
  obtain ⟨first, key, filled⟩ := exists_fillRow bound found
  have same := (mem_group found inside).2
  rw [key] at same
  rw [filled]
  exact showsKey_fillRow same

theorem groupRows_pairwise
    (visible : ∀ item ∈ items, item.expression.isAggregate = false → item.LastIn items) :
    (groupRows items sets).Pairwise fun early late => early.same late = false := by
  rw [groupRows, List.pairwise_map]
  refine (groupsOf_pairwise items sets).imp_of_mem fun {early late} found found' apart => ?_
  obtain ⟨first, key, filled⟩ := exists_fillRow bound found
  obtain ⟨first', key', filled'⟩ := exists_fillRow bound found'
  rw [key, key'] at apart
  rw [filled, filled']
  by_contra same
  rw [same_fillRow visible (eq_true_of_ne_false same)] at apart
  contradiction

end Bound

theorem kept_or_failed (condition? : Option Condition) (sets : List Bindings) :
    (∃ kept, (filter condition? sets).run.value = .ok kept ∧ kept ⊆ sets) ∨
      ∃ error, (filter condition? sets).run.value = .error error := by
  rcases judged_or_failed condition? sets with judged | ⟨_, member, _, failed⟩
  · exact .inl ⟨_, filter_of_ok judged, fun _ => List.mem_of_mem_filter⟩
  · exact .inr (filter_of_error member failed)

end Evaluate

namespace Query

/-- The query has an aggregate of the argument. -/
def AggregatesOf (query : Query) (argument : AggregateArgument) : Prop :=
  ∃ item ∈ query.projection.items, ∃ aggregate, item.expression = .aggregate aggregate ∧
    aggregate.argument = argument

/-- The query with nothing to return but `COLLECT` of an argument. -/
def collecting (query : Query) (argument : AggregateArgument) : Query where
  patterns := query.patterns
  condition := query.condition
  projection := {
    distinct := false
    items := [{ expression := .aggregate ⟨.collect, false, argument⟩ }] }

open Evaluate (argumentOf argumentValue groupingKey)

/-- The rows of a query with aggregates are those of the parts to which the binding sets that it
keeps are dealt out. -/
structure Groups (query : Query) (table : Table) (kept : List Bindings)
    (parts : List (List Bindings)) (rows : List Row) : Prop where
  dealt : Dealt parts kept
  /-- The members of a part have the same key. -/
  alike : ∀ part ∈ parts, ∀ left ∈ part, ∀ right ∈ part,
    Value.sameItems (groupingKey query.projection.items left)
      (groupingKey query.projection.items right) = true
  /-- The members of different parts have different keys. -/
  apart : parts.Pairwise fun early late => ∀ left ∈ early, ∀ right ∈ late,
    Value.sameItems (groupingKey query.projection.items left)
      (groupingKey query.projection.items right) = false
  inhabited : query.projection.items.all (·.expression.isAggregate) = false →
    ∀ part ∈ parts, part ≠ []
  /-- Aggregates alone leave the binding sets together. -/
  together : query.projection.items.all (·.expression.isAggregate) = true → parts = [kept]
  keys : List.Forall₂ (fun part row => ∀ member ∈ part,
    row.ShowsKey query.projection.items member) parts rows
  found : table.rows = if query.projection.distinct then rows.eraseDupsBy Row.same else rows
  /-- DISTINCT makes no difference where every item of the key is the last of its column. -/
  unmerged : (∀ item ∈ query.projection.items, item.expression.isAggregate = false →
    item.LastIn query.projection.items) → table.rows = rows
  /-- Of no binding sets, aggregates alone make one row, and other items with them none. -/
  nothing : kept = [] → table.rows.length =
    if query.projection.items.all (·.expression.isAggregate) then 1 else 0

/-- What COLLECT makes of an argument in the parts is dealt out from what it makes of it without
groups, and the rows show it and what the other aggregates make of it. -/
structure Collects (query : Query) (graph : Snapshot) (maxDepth : Nat) (kept : List Bindings)
    (parts : List (List Bindings)) (rows : List Row) (argument : AggregateArgument) : Prop where
  values : ∀ bindings ∈ kept,
    (argumentValue bindings argument).run.value = .ok (argumentOf argument bindings)
  ungrouped : ∃ total, (query.collecting argument).run graph maxDepth = .ok total ∧
    total.rows = [[((⟨.collect, false, argument⟩ : Aggregate).spelling,
      .list (kept.map (argumentOf argument)))]]
  dealt : Dealt (parts.map (List.map (argumentOf argument))) (kept.map (argumentOf argument))
  shown : List.Forall₂ (fun part row => row.Aggregates query.projection.items argument
    (part.map (argumentOf argument))) parts rows

variable {graph : Snapshot} {maxDepth : Nat} {query : Query} {argument : AggregateArgument}
  {kept : List Bindings}

theorem BindsUses.binds_argument (bound : query.BindsUses graph maxDepth)
    (aggregated : query.AggregatesOf argument) {bindings : Bindings}
    (found : bindings ∈ (Match.patterns graph maxDepth query.patterns).value) :
    ∀ identifier ∈ argument.uses, (bindings.element? identifier).isSome := by
  intro identifier used
  obtain ⟨item, member, aggregate, written, rfl⟩ := aggregated
  refine bound.items found item member identifier ?_
  rw [written]
  exact used

theorem BindsUses.collecting (bound : query.BindsUses graph maxDepth)
    (aggregated : query.AggregatesOf argument) :
    (query.collecting argument).BindsUses graph maxDepth := by
  intro bindings found identifier used
  rcases List.mem_append.mp used with condition | projected
  · exact bound bindings found identifier (List.mem_append_left _ condition)
  · have inside : identifier ∈ argument.uses := by
      simpa [Query.collecting, ReturnExpression.uses] using projected
    exact bound.binds_argument aggregated found identifier inside

/-- A query with aggregates finds the rows of the groups of what it keeps. -/
theorem BindsUses.run_of_kept (bound : query.BindsUses graph maxDepth)
    (aggregates : query.projection.hasAggregate = true)
    (ended : (Evaluate.filter query.condition
      (Match.patterns graph maxDepth query.patterns).value).run.value = .ok kept)
    (within : kept ⊆ (Match.patterns graph maxDepth query.patterns).value) :
    ∃ table, query.run graph maxDepth = .ok table ∧
      table.rows = if query.projection.distinct then
          (Evaluate.groupRows query.projection.items kept).eraseDupsBy Row.same
        else Evaluate.groupRows query.projection.items kept := by
  have projected := Evaluate.value_project_of_aggregate aggregates
    fun bindings member => bound.items (within member)
  have found : (query.rows graph maxDepth).run.value = _ := value_rows
  rw [ended] at found
  obtain ⟨table, ran, _, rows, _⟩ := run_answers bound.meets (found.trans projected)
  exact ⟨table, ran, rows⟩

theorem BindsUses.groups (bound : query.BindsUses graph maxDepth)
    (within : kept ⊆ (Match.patterns graph maxDepth query.patterns).value) {table : Table}
    (rows : table.rows = if query.projection.distinct then
        (Evaluate.groupRows query.projection.items kept).eraseDupsBy Row.same
      else Evaluate.groupRows query.projection.items kept) :
    query.Groups table kept (Evaluate.parts query.projection.items kept)
      (Evaluate.groupRows query.projection.items kept) := by
  have binds : ∀ bindings ∈ kept, Evaluate.BindsItems query.projection.items bindings :=
    fun bindings member => bound.items (within member)
  have unmerged (apart : (Evaluate.groupRows query.projection.items kept).Pairwise
      fun early late => early.same late = false) :
      table.rows = Evaluate.groupRows query.projection.items kept := by
    rw [rows, ← Ordered.distinctBy_eq_eraseDupsBy Row.same_comm, Ordered.distinctBy_eq_self apart,
      ite_self]
  exact {
    dealt := Evaluate.dealt_parts _ kept
    alike := fun part listed _ inLeft _ inRight => Evaluate.same_key_of_mem listed inLeft inRight
    apart := Evaluate.parts_pairwise _ kept
    inhabited := fun keyed part listed => Evaluate.ne_nil_of_mem_parts keyed listed
    together := fun all => Evaluate.parts_of_aggregates all kept
    keys := Evaluate.forall₂_groupRows fun group found => Evaluate.showsKey_groupRowOf binds found
    found := rows
    unmerged := fun visible => unmerged (Evaluate.groupRows_pairwise binds visible)
    nothing := by
      intro none
      subst none
      have counted := Evaluate.groupRows_nil query.projection.items
      rw [unmerged, counted]
      split at counted
      · obtain ⟨row, one⟩ := List.length_eq_one_iff.mp counted
        rw [one]
        exact List.pairwise_singleton _ row
      · rw [List.length_eq_zero_iff.mp counted]
        exact .nil }

theorem BindsUses.run_collecting (bound : query.BindsUses graph maxDepth)
    (aggregated : query.AggregatesOf argument) (named : argument ≠ .star)
    (ended : (Evaluate.filter query.condition
      (Match.patterns graph maxDepth query.patterns).value).run.value = .ok kept)
    (within : kept ⊆ (Match.patterns graph maxDepth query.patterns).value) :
    ∃ total, (query.collecting argument).run graph maxDepth = .ok total ∧
      total.rows = [[((⟨.collect, false, argument⟩ : Aggregate).spelling,
        .list (kept.map (argumentOf argument)))]] := by
  have alone := bound.collecting aggregated
  obtain ⟨total, ran, rows⟩ := alone.run_of_kept rfl ended within
  have one := Evaluate.groupsOf_of_aggregates
    (rfl : (query.collecting argument).projection.items.all (·.expression.isAggregate) = true) kept
  have found : { key := [], members := kept } ∈
      Evaluate.groupsOf (query.collecting argument).projection.items kept := by
    rw [one]
    exact List.mem_singleton_self _
  obtain ⟨first, _, filled⟩ := Evaluate.exists_fillRow
    (fun bindings member => alone.items (within member)) found
  have collected : Evaluate.cellOf first kept
      { expression := .aggregate ⟨.collect, false, argument⟩ } =
        .list (kept.map (argumentOf argument)) := by
    rw [Evaluate.cellOf_aggregate rfl, Evaluate.aggregateOf_of_ne named]
    rfl
  have repeating : ¬ (query.collecting argument).projection.distinct = true := Bool.false_ne_true
  rw [if_neg repeating, Evaluate.groupRows, one, List.map_singleton, filled] at rows
  exact ⟨total, ran, rows.trans (by rw [← collected]; rfl)⟩

theorem BindsUses.collects (bound : query.BindsUses graph maxDepth)
    (aggregated : query.AggregatesOf argument) (named : argument ≠ .star)
    (ended : (Evaluate.filter query.condition
      (Match.patterns graph maxDepth query.patterns).value).run.value = .ok kept)
    (within : kept ⊆ (Match.patterns graph maxDepth query.patterns).value) :
    query.Collects graph maxDepth kept (Evaluate.parts query.projection.items kept)
      (Evaluate.groupRows query.projection.items kept) argument := by
  have binds : ∀ bindings ∈ kept, Evaluate.BindsItems query.projection.items bindings :=
    fun bindings member => bound.items (within member)
  exact {
    values := fun bindings member =>
      Evaluate.value_argumentValue (bound.binds_argument aggregated (within member))
    ungrouped := bound.run_collecting aggregated named ended within
    dealt := (Evaluate.dealt_parts _ kept).map _
    shown := Evaluate.forall₂_groupRows fun group found =>
      Evaluate.aggregates_groupRowOf binds found named }

/-- The binding sets that a query with aggregates keeps are dealt out to the groups of its rows, and
with them what COLLECT makes of an argument; in every group the other aggregates of the argument
agree with that. -/
theorem run_dealt (graph : Snapshot) (maxDepth : Nat) (query : Query)
    (accepted : query.check = .ok ()) (aggregates : query.projection.hasAggregate = true) :
    ∃ table, query.run graph maxDepth = .ok table ∧
      ((table.Refused ∧ ∀ argument, query.AggregatesOf argument → ∃ total,
          (query.collecting argument).run graph maxDepth = .ok total ∧ total.Refused) ∨
        ∃ kept parts rows,
          (Evaluate.filter query.condition
            (Match.patterns graph maxDepth query.patterns).value).run.value = .ok kept ∧
          query.Groups table kept parts rows ∧
          ∀ argument, query.AggregatesOf argument → argument ≠ .star →
            query.Collects graph maxDepth kept parts rows argument) := by
  have bound : query.BindsUses graph maxDepth := bindsUses_of_check accepted
  rcases Evaluate.kept_or_failed query.condition (Match.patterns graph maxDepth query.patterns).value
    with ⟨kept, ended, within⟩ | ⟨error, failed⟩
  · obtain ⟨table, ran, rows⟩ := bound.run_of_kept aggregates ended within
    exact ⟨table, ran, .inr ⟨kept, _, _, ended, bound.groups within rows,
      fun argument aggregated named => bound.collects aggregated named ended within⟩⟩
  · obtain ⟨table, ran, refused, _⟩ := run_of_misjudged bound failed
    refine ⟨table, ran, .inl ⟨refused, fun argument aggregated => ?_⟩⟩
    obtain ⟨total, ranTotal, refusedTotal, _⟩ :=
      run_of_misjudged (bound.collecting aggregated) failed
    exact ⟨total, ranTotal, refusedTotal⟩

/-- Three members of one team, of which one has no rank, and a member of another. -/
def rankedMembers : Snapshot :=
  let member (id team : String) (rank : List (String × Property)) : Node :=
    { id, properties := ("team", .string team) :: rank }
  Snapshot.ofLists
    [member "a" "x" [("rank", .integer 1)], member "b" "y" [("rank", .integer 2)],
      member "c" "x" [], member "d" "x" [("rank", .integer 1)]] []

/-- `MATCH (n) RETURN n.team, ..` with all aggregates of `n.rank` -/
def ranksByTeam : Query :=
  let n : Identifier := { name := "n", position := {} }
  let rank : AggregateArgument := .property { owner := n, property := "rank" }
  let aggregate (function : AggregateFunction) (distinct : Bool)
      (argument : AggregateArgument) : ReturnItem :=
    { expression := .aggregate { function, distinct, argument } }
  { patterns := [{ start := { binder := some n }, hops := [] }]
    condition := none
    projection := {
      distinct := false
      items := [{ expression := .property { owner := n, property := "team" } },
        aggregate .collect false rank, aggregate .count false .star, aggregate .count false rank,
        aggregate .collect true rank, aggregate .count true rank] } }

theorem run_dealt_ranksByTeam : ranksByTeam.check = .ok () ∧
    ranksByTeam.projection.hasAggregate = true ∧
    ∃ table kept parts rows, ranksByTeam.run rankedMembers 1 = .ok table ∧
      ranksByTeam.Groups table kept parts rows ∧
      ranksByTeam.Collects rankedMembers 1 kept parts rows
        (.property { owner := { name := "n", position := {} }, property := "rank" }) ∧
      table.rows = [
        [("n.team", .string "x"), ("COLLECT(n.rank)", .list [.integer 1, .null, .integer 1]),
          ("COUNT(*)", .integer 3), ("COUNT(n.rank)", .integer 2),
          ("COLLECT(DISTINCT n.rank)", .list [.integer 1, .null]),
          ("COUNT(DISTINCT n.rank)", .integer 1)],
        [("n.team", .string "y"), ("COLLECT(n.rank)", .list [.integer 2]),
          ("COUNT(*)", .integer 1), ("COUNT(n.rank)", .integer 1),
          ("COLLECT(DISTINCT n.rank)", .list [.integer 2]),
          ("COUNT(DISTINCT n.rank)", .integer 1)]] := by
  obtain ⟨table, ran, ⟨refused, _⟩ | ⟨kept, parts, rows, _, groups, collects⟩⟩ :=
    run_dealt rankedMembers 1 ranksByTeam rfl rfl
  · obtain rfl := Except.ok.inj (ran.symm.trans rfl)
    exact nomatch refused.rows
  · refine ⟨rfl, rfl, table, kept, parts, rows, ran, groups, collects _ ?_ nofun, ?_⟩
    · exact ⟨_, List.mem_cons_of_mem _ List.mem_cons_self, _, rfl, rfl⟩
    · exact Except.ok.inj ((congrArg (Except.map Table.rows) ran).symm.trans rfl)

end Query

end DocumentGraph
