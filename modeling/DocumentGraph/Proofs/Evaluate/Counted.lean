import DocumentGraph.Proofs.Evaluate.Grouping
import DocumentGraph.Proofs.Match.Introduced

namespace DocumentGraph

open Match (Bindings)
open Query (Condition Diagnostic Pattern Projection QueryError ReturnItem)

/-! Distinct rows and counted rows.

Rows are made unique by comparing all their cells, and binding sets are grouped by the values that
those cells hold.  Both keep what comes first.  So the distinct rows of some items are the keys of
their groups, and `COUNT(*)` behind the items says how often each of these rows occurs without
DISTINCT.
-/

/-- `COUNT(*)` -/
def Query.ReturnItem.countAll : ReturnItem where
  expression := .aggregate { function := .count, distinct := false, argument := .star }

namespace Row

/-- The row without the cells of a column. -/
def without (row : Row) (column : String) : Row :=
  row.filter fun cell => cell.1 ≠ column

theorem put_of_not_mem {row : Row} {column : String} (fresh : column ∉ row.map Prod.fst)
    (value : Value) : row.put column value = row ++ [(column, value)] :=
  Ordered.put_of_not_mem fresh value

theorem same_zip (columns : List String) {left right : List Value}
    (leftFits : left.length = columns.length) (rightFits : right.length = columns.length) :
    Row.same (columns.zip left) (columns.zip right) = Value.sameItems left right := by
  induction columns generalizing left right with
  | nil =>
      obtain rfl := List.length_eq_zero_iff.mp leftFits
      obtain rfl := List.length_eq_zero_iff.mp rightFits
      rfl
  | cons column columns ih =>
      obtain ⟨first, lefts, rfl⟩ := List.exists_cons_of_length_eq_add_one leftFits
      obtain ⟨second, rights, rfl⟩ := List.exists_cons_of_length_eq_add_one rightFits
      simp [Row.same, Value.sameItems, ih (Nat.succ.inj leftFits) (Nat.succ.inj rightFits)]

end Row

namespace Evaluate

open Value (sameItems)

variable {items : List ReturnItem} {bindings : Bindings} {sets : List Bindings}
  {keyOf : Bindings → List Value} {group : Group} {key : List Value}

def Unaggregated (items : List ReturnItem) : Prop :=
  ∀ item ∈ items, item.expression.isAggregate = false

/-- The row with the values of a key in the columns of the items. -/
def keyRow (items : List ReturnItem) (key : List Value) : Row :=
  (names items).zip key

/-- The row of a group, which ends with the number of its members. -/
def countedRow (items : List ReturnItem) (group : Group) : Row :=
  keyRow items group.key ++ [("COUNT(*)", .integer group.members.length)]

theorem groupKey_of_unaggregated (plain : Unaggregated items) (bindings : Bindings) :
    groupKey items bindings = items.mapM fun item => itemValue bindings item.expression := by
  have all : items.filter (fun item => !item.expression.isAggregate) = items :=
    List.filter_eq_self.mpr fun item member => by rw [plain item member]; rfl
  rw [groupKey, all]

theorem groupKey_append_countAll (items : List ReturnItem) (bindings : Bindings) :
    groupKey (items ++ [.countAll]) bindings = groupKey items bindings := by
  have counts : ([.countAll] : List ReturnItem).filter
      (fun item => !item.expression.isAggregate) = [] := rfl
  rw [groupKey, groupKey, List.filter_append, counts, List.append_nil]

/-- A row is filled with the values that decide the group of its binding set. -/
theorem plainRow_eq_keyRow (plain : Unaggregated items) (apart : (names items).Nodup)
    (bindings : Bindings) :
    plainRow items bindings = keyRow items <$> groupKey items bindings := by
  rw [groupKey_of_unaggregated plain, plainRow]
  suffices general : ∀ row : Row, (row.map Prod.fst ++ names items).Nodup →
      items.foldlM (fun (row : Row) item => do
        return row.put item.columnName (← itemValue bindings item.expression)) row =
      (fun key => row ++ keyRow items key) <$>
        items.mapM fun item => itemValue bindings item.expression from
    general [] apart
  clear plain apart
  induction items with
  | nil =>
      intro row _
      simp [keyRow, names]
  | cons item rest ih =>
      intro row apart
      have fresh : item.columnName ∉ row.map Prod.fst := fun member =>
        List.disjoint_of_nodup_append apart member List.mem_cons_self
      have later (value : Value) :
          ((row ++ [(item.columnName, value)]).map Prod.fst ++ names rest).Nodup := by
        rw [List.map_append, List.append_assoc]
        exact apart
      simp only [List.foldlM_cons, List.mapM_cons, bind_assoc, pure_bind, map_bind, map_pure,
        Row.put_of_not_mem fresh, ih _ (later _)]
      refine bind_congr fun value => ?_
      simp [keyRow, names]

theorem groupRow_eq_countedRow (plain : Unaggregated items)
    (apart : (names (items ++ [.countAll])).Nodup) (fits : group.key.length = items.length) :
    groupRow (items ++ [.countAll]) group = pure (countedRow items group) := by
  suffices general : ∀ (key : List Value) (row : Row), key.length = items.length →
      (row.map Prod.fst ++ names (items ++ [.countAll])).Nodup →
      fillGroupRow group.members (items ++ [.countAll]) key row =
        pure (row ++ (keyRow items key ++ [("COUNT(*)", .integer group.members.length)])) from
    general group.key [] fits apart
  clear apart fits
  induction items with
  | nil =>
      intro key row fits apart
      obtain rfl := List.length_eq_zero_iff.mp fits
      have fresh : ReturnItem.countAll.columnName ∉ row.map Prod.fst := fun member =>
        List.disjoint_of_nodup_append apart member List.mem_cons_self
      have counted : fillGroupRow group.members [.countAll] [] row =
          pure (row.put ReturnItem.countAll.columnName (.integer group.members.length)) := rfl
      rw [List.nil_append, counted, Row.put_of_not_mem fresh]
      rfl
  | cons item rest ih =>
      intro key row fits apart
      obtain ⟨value, values, rfl⟩ := List.exists_cons_of_length_eq_add_one fits
      obtain ⟨here, others⟩ := List.forall_mem_cons.mp plain
      have fresh : item.columnName ∉ row.map Prod.fst := fun member =>
        List.disjoint_of_nodup_append apart member List.mem_cons_self
      have later : ((row ++ [(item.columnName, value)]).map Prod.fst ++
          names (rest ++ [.countAll])).Nodup := by
        rw [List.map_append, List.append_assoc]
        exact apart
      have filled :
          fillGroupRow group.members (item :: (rest ++ [.countAll])) (value :: values) row =
          fillGroupRow group.members (rest ++ [.countAll]) values
            (row.put item.columnName value) := by
        rw [fillGroupRow]
        split
        · rename_i written
          rw [written] at here
          contradiction
        · rfl
      rw [List.cons_append, filled, Row.put_of_not_mem fresh,
        ih others values _ (Nat.succ.inj fits) later]
      simp [keyRow, names]

theorem length_groupKey (plain : Unaggregated items)
    (given : (groupKey items bindings).run.value = .ok key) : key.length = items.length := by
  rw [groupKey_of_unaggregated plain] at given
  exact Evaluation.length_of_mapM given

theorem length_names (items : List ReturnItem) : (names items).length = items.length :=
  List.length_map _

theorem same_keyRow {left right : List Value} (leftFits : left.length = items.length)
    (rightFits : right.length = items.length) :
    (keyRow items left).same (keyRow items right) = sameItems left right :=
  Row.same_zip _ (leftFits.trans (length_names items).symm)
    (rightFits.trans (length_names items).symm)

theorem without_countedRow (free : "COUNT(*)" ∉ names items) (group : Group) :
    (countedRow items group).without "COUNT(*)" = keyRow items group.key := by
  have kept : (keyRow items group.key).filter (fun cell => cell.1 ≠ "COUNT(*)") =
      keyRow items group.key := by
    refine List.filter_eq_self.mpr fun cell member => decide_eq_true fun same => free ?_
    exact same ▸ (List.of_mem_zip member).1
  rw [Row.without, countedRow, List.filter_append, kept]
  exact List.append_nil _

theorem get?_countedRow (free : "COUNT(*)" ∉ names items) (group : Group) :
    (countedRow items group).get? "COUNT(*)" = some (.integer group.members.length) := by
  have absent : (keyRow items group.key).lookup "COUNT(*)" = none := by
    refine List.lookup_eq_none_iff.mpr fun cell member => ?_
    have different : "COUNT(*)" ≠ cell.1 := fun same => free (same ▸ (List.of_mem_zip member).1)
    simpa using different
  rw [Row.get?, countedRow, List.lookup_append, absent]
  rfl

theorem rows_of_unaggregated (plain : Unaggregated items) (distinct : Bool) (sets : List Bindings) :
    rows { distinct, items } sets = sets.mapM (plainRow items) := by
  have none : ({ distinct, items } : Projection).hasAggregate = false :=
    List.any_eq_false.mpr fun item member => by simp [plain item member]
  rw [rows, if_neg (by simp [none])]

theorem rows_append_countAll (distinct : Bool) (items : List ReturnItem) (sets : List Bindings) :
    rows { distinct, items := items ++ [.countAll] } sets =
      groups (items ++ [.countAll]) sets >>= fun found =>
        found.mapM (groupRow (items ++ [.countAll])) := by
  have counts : ({ distinct, items := items ++ [.countAll] } : Projection).hasAggregate = true :=
    List.any_eq_true.mpr ⟨ReturnItem.countAll, by simp, rfl⟩
  rw [rows, if_pos counts]

theorem nodup_names (apart : (names (items ++ [.countAll])).Nodup) : (names items).Nodup := by
  rw [names, List.map_append] at apart
  exact (List.nodup_append.mp apart).1

theorem countAll_not_mem_names (apart : (names (items ++ [.countAll])).Nodup) :
    "COUNT(*)" ∉ names items := by
  rw [names, List.map_append] at apart
  exact fun member => List.disjoint_of_nodup_append apart member (List.mem_singleton.mpr rfl)

section Given

variable (plain : Unaggregated items)
  (given : ∀ bindings ∈ sets, (groupKey items bindings).run.value = .ok (keyOf bindings))

include plain given

theorem run_project_unaggregated (apart : (names items).Nodup) (distinct : Bool) :
    (project { distinct, items } sets).run = {
      value := .ok (if distinct then
          Ordered.distinctBy Row.same (sets.map fun bindings => keyRow items (keyOf bindings))
        else sets.map fun bindings => keyRow items (keyOf bindings))
      warnings := sets.flatMap fun bindings => (groupKey items bindings).run.warnings } := by
  have filled := plainRow_eq_keyRow plain apart
  have each : ∀ bindings ∈ sets,
      (plainRow items bindings).run.value = .ok (keyRow items (keyOf bindings)) := by
    intro bindings member
    rw [filled, Evaluation.value_run_map, given bindings member]
    rfl
  have all := Evaluation.run_mapM each
  rw [project, rows_of_unaggregated plain,
    Evaluation.run_bind_of_ok (congrArg Noted.value all), all]
  simp only [filled, Evaluation.warnings_run_map]
  cases distinct <;> simp

theorem run_project_counted (apart : (names (items ++ [.countAll])).Nodup) (some : items ≠ []) :
    (project { distinct := false, items := items ++ [.countAll] } sets).run = {
      value := .ok ((groupsBy keyOf sets).map (countedRow items))
      warnings := sets.flatMap fun bindings => (groupKey items bindings).run.warnings } := by
  have keys : ∀ bindings ∈ sets,
      (groupKey (items ++ [.countAll]) bindings).run.value = .ok (keyOf bindings) := by
    simpa only [groupKey_append_countAll] using given
  have grouped := run_groups_of_keys keys
  have keyed : (items ++ [ReturnItem.countAll]).all (·.expression.isAggregate) = false := by
    obtain ⟨first, rest, rfl⟩ := List.exists_cons_of_ne_nil some
    simp [plain first List.mem_cons_self]
  rw [keyed, Bool.and_false, if_neg Bool.false_ne_true] at grouped
  simp only [groupKey_append_countAll] at grouped
  have filled : ∀ group ∈ groupsBy keyOf sets,
      groupRow (items ++ [.countAll]) group = pure (countedRow items group) := by
    intro group found
    obtain ⟨bindings, _, member, same⟩ := exists_member_groupsBy found
    exact groupRow_eq_countedRow plain apart
      (same ▸ length_groupKey plain (given bindings member))
  have silent : ((groupsBy keyOf sets).flatMap fun group =>
      (groupRow (items ++ [.countAll]) group).run.warnings) = [] :=
    List.flatMap_eq_nil_iff.mpr fun group found => by rw [filled group found]; rfl
  have all := Evaluation.run_mapM fun group found =>
    congrArg (fun row : Evaluation Row => row.run.value) (filled group found)
  have found : (rows { distinct := false, items := items ++ [.countAll] } sets).run = {
      value := .ok ((groupsBy keyOf sets).map (countedRow items))
      warnings := sets.flatMap fun bindings => (groupKey items bindings).run.warnings } := by
    rw [rows_append_countAll, Evaluation.run_bind_of_ok (congrArg Noted.value grouped), grouped,
      all, silent, List.append_nil]
  rw [project, Evaluation.run_bind_of_ok (congrArg Noted.value found), found]
  simp

/-- The distinct rows are those of the groups. -/
theorem distinctBy_keyRow :
    Ordered.distinctBy Row.same (sets.map fun bindings => keyRow items (keyOf bindings)) =
      (groupsBy keyOf sets).map fun group => keyRow items group.key := by
  have agree : ∀ left ∈ sets.map keyOf, ∀ right ∈ sets.map keyOf,
      (keyRow items left).same (keyRow items right) = sameItems left right := by
    intro left first right second
    obtain ⟨bindings, member, rfl⟩ := List.mem_map.mp first
    obtain ⟨others, member', rfl⟩ := List.mem_map.mp second
    exact same_keyRow (length_groupKey plain (given bindings member))
      (length_groupKey plain (given others member'))
  have mapped : (sets.map fun bindings => keyRow items (keyOf bindings)) =
      (sets.map keyOf).map (keyRow items) := List.map_map.symm
  rw [mapped, Ordered.distinctBy_map agree, groupsBy, List.map_map]
  rfl

theorem members_eq_countP (found : group ∈ groupsBy keyOf sets) :
    group.members.length =
      (sets.map fun bindings => keyRow items (keyOf bindings)).countP
        (keyRow items group.key).same := by
  obtain ⟨bindings, _, member, same⟩ := exists_member_groupsBy found
  have fits : group.key.length = items.length :=
      same ▸ length_groupKey plain (given bindings member)
  have members :
      group.members = sets.filter fun bindings => sameItems group.key (keyOf bindings) := by
    obtain ⟨key, _, rfl⟩ := List.mem_map.mp found
    rfl
  rw [members, ← List.countP_eq_length_filter, List.countP_map]
  refine List.countP_congr fun other inside => ?_
  rw [Function.comp, same_keyRow fits (length_groupKey plain (given other inside))]

end Given

/-- What fails for the key of a binding set fails for its row. -/
theorem project_failed (plain : Unaggregated items) (apart : (names items).Nodup)
    {error : QueryError}
    (keys : (sets.mapM (groupKey items)).run.value = .error error)
    (grouped : (sets.foldlM (fun found bindings => do
      return joinGroup (← groupKey items bindings) bindings found) []).run.value = .error error) :
    (∀ distinct, (project { distinct, items } sets).run.value = .error error) ∧
    (project { distinct := false, items := items ++ [.countAll] } sets).run.value =
      .error error := by
  constructor
  · intro distinct
    have failed : (sets.mapM (plainRow items)).run.value = .error error := by
      rw [funext (plainRow_eq_keyRow plain apart), Evaluation.mapM_map, Evaluation.value_run_map,
        keys]
      rfl
    rw [project, rows_of_unaggregated plain, Evaluation.value_run_bind, failed]
    rfl
  · have failed : (groups (items ++ [.countAll]) sets).run.value = .error error := by
      rw [groups, Evaluation.value_run_bind]
      simp only [groupKey_append_countAll, grouped]
      rfl
    rw [project, rows_append_countAll, Evaluation.value_run_bind, Evaluation.value_run_bind, failed]
    rfl

end Evaluate

/-- `counted` says of each row of `once` how often it occurs in `all`. -/
structure Table.Counts (counted once all : Table) : Prop where
  diagnostics : once.diagnostics = counted.diagnostics
  rows : once.rows = counted.rows.map (·.without "COUNT(*)")
  counts : counted.rows.map (·.get? "COUNT(*)") =
    once.rows.map fun row => some (.integer (all.rows.countP row.same))

theorem Table.Counts.of_refused {table : Table} (refused : table.Refused) :
    table.Counts table table where
  diagnostics := rfl
  rows := by rw [refused.rows, List.map_nil]
  counts := by rw [refused.rows, List.map_nil, List.map_nil]

namespace Query

variable {graph : Snapshot} {maxDepth : Nat} {patterns : List Pattern}
  {condition : Option Condition} {items : List ReturnItem}

theorem run_eq_of_failed {query other : Query} {error : QueryError}
    (failed : (query.rows graph maxDepth).run.value = .error error)
    (failed' : (other.rows graph maxDepth).run.value = .error error) :
    query.run graph maxDepth = other.run graph maxDepth := by
  rw [run_of_failure failed, run_of_failure failed']

/-- A query that fails has no table, or it refuses. -/
theorem refused_of_failed {query : Query} {error : QueryError} {table : Table}
    (failed : (query.rows graph maxDepth).run.value = .error error)
    (ran : query.run graph maxDepth = .ok table) : table.Refused := by
  rw [run_of_failure failed] at ran
  cases error with
  | typeMismatch operator left right =>
      obtain rfl := Except.ok.inj ran
      exact ⟨rfl, rfl, _, rfl, rfl⟩
  | _ => contradiction

/-- The table of a query whose filter succeeds and whose rows do. -/
theorem run_of_project {query : Query} {kept : List Bindings} {rows : List Row}
    {remarks : List Diagnostic}
    (ended : (Evaluate.filter query.condition
      (Match.patterns graph maxDepth query.patterns).value).run.value = .ok kept)
    (projected : (Evaluate.project query.projection kept).run =
      { value := .ok rows, warnings := remarks }) :
    query.run graph maxDepth = .ok {
      columns := Evaluate.columns query.projection
      rows
      diagnostics := Ordered.distinctBy (· = ·)
        ((Match.patterns graph maxDepth query.patterns).warnings ++
          ((Evaluate.filter query.condition
            (Match.patterns graph maxDepth query.patterns).value).run.warnings ++ remarks)) } := by
  have found := run_rows_of_kept ended
  rw [projected] at found
  rw [run_of_rows (congrArg Noted.value found), found]

/-- Where every binding set that is kept has a key, the distinct rows are counted. -/
theorem counts_of_keys {kept : List Bindings} {keyOf : Bindings → List Value}
    (plain : Evaluate.Unaggregated items) (apart : (Evaluate.names (items ++ [.countAll])).Nodup)
    (nonempty : items ≠ [])
    (ended : (Evaluate.filter condition (Match.patterns graph maxDepth patterns).value).run.value =
      .ok kept)
    (given : ∀ bindings ∈ kept,
      (Evaluate.groupKey items bindings).run.value = .ok (keyOf bindings)) :
    let answer (distinct : Bool) (items : List ReturnItem) :=
      ({ patterns, condition, projection := { distinct, items } } : Query).run graph maxDepth
    ∃ once counted all, answer true items = .ok once ∧
      answer false (items ++ [.countAll]) = .ok counted ∧ answer false items = .ok all ∧
      counted.Counts once all ∧ (∀ row ∈ once.rows, 0 < all.rows.countP row.same) ∧
      (once.rows.map fun row => all.rows.countP row.same).sum = kept.length := by
  intro answer
  have free := Evaluate.countAll_not_mem_names apart
  have each := Evaluate.run_project_unaggregated plain given (Evaluate.nodup_names apart)
  have counted := Evaluate.run_project_counted plain given apart nonempty
  have occurrences : ∀ group ∈ Evaluate.groupsBy keyOf kept,
      (kept.map fun bindings => Evaluate.keyRow items (keyOf bindings)).countP
        (Evaluate.keyRow items group.key).same = group.members.length :=
    fun group found => (Evaluate.members_eq_countP plain given found).symm
  have distinct := Evaluate.distinctBy_keyRow plain given
  refine ⟨_, _, _, run_of_project ended (each true), run_of_project ended counted,
    run_of_project ended (each false), ⟨rfl, ?_, ?_⟩, ?_, ?_⟩
  · simp only [if_pos, distinct, List.map_map]
    exact List.map_congr_left fun group _ => (Evaluate.without_countedRow free group).symm
  · simp only [if_pos, Bool.false_eq_true, if_false, distinct, List.map_map]
    refine List.map_congr_left fun group found => ?_
    rw [Function.comp, Function.comp, Evaluate.get?_countedRow free, occurrences group found]
  · simp only [if_pos, Bool.false_eq_true, if_false, distinct]
    intro row member
    obtain ⟨group, found, rfl⟩ := List.mem_map.mp member
    obtain ⟨bindings, inside, _⟩ := Evaluate.exists_member_groupsBy found
    rw [occurrences group found]
    exact List.length_pos_of_mem inside
  · simp only [if_pos, Bool.false_eq_true, if_false, distinct, List.map_map]
    rw [← Evaluate.size_groupsBy keyOf kept]
    exact congrArg List.sum (List.map_congr_left occurrences)

/-- Every binding set that is kept has a key, or the three queries fail in the same way. -/
theorem keys_or_failed (graph : Snapshot) (maxDepth : Nat) (patterns : List Pattern)
    (condition : Option Condition) (plain : Evaluate.Unaggregated items)
    (apart : (Evaluate.names items).Nodup) :
    (∃ kept, ∃ keyOf : Bindings → List Value,
      (Evaluate.filter condition (Match.patterns graph maxDepth patterns).value).run.value =
        .ok kept ∧
      ∀ bindings ∈ kept, (Evaluate.groupKey items bindings).run.value = .ok (keyOf bindings)) ∨
    ∃ error,
      (∀ distinct, (rows graph maxDepth
        { patterns, condition, projection := { distinct, items } }).run.value = .error error) ∧
      (rows graph maxDepth { patterns, condition, projection :=
        { distinct := false, items := items ++ [.countAll] } }).run.value = .error error := by
  cases ended :
      (Evaluate.filter condition (Match.patterns graph maxDepth patterns).value).run.value with
  | error error =>
      have stopped (projection : Projection) :
          (rows graph maxDepth { patterns, condition, projection }).run.value = .error error := by
        rw [value_rows, ended]
        rfl
      exact .inr ⟨error, fun _ => stopped _, stopped _⟩
  | ok kept =>
      rcases Evaluation.given_or_failed (Evaluate.groupKey items) [] kept with
        given | ⟨error, keys, folded⟩
      · exact .inl ⟨kept, _, rfl, given⟩
      · have stopped {projection : Projection}
            (failed : (Evaluate.project projection kept).run.value = .error error) :
            (rows graph maxDepth { patterns, condition, projection }).run.value = .error error := by
          rw [value_rows, ended]
          exact failed
        obtain ⟨each, counted⟩ := Evaluate.project_failed plain apart keys
          (folded (fun bindings key found => Evaluate.joinGroup key bindings found) [])
        exact .inr ⟨error, fun distinct => stopped (each distinct), stopped counted⟩

/-- RETURN DISTINCT and the same items with `COUNT(*)` behind them report the same and find the
same rows in the same order.  Each count says how often its row occurs without DISTINCT; unless the
queries refuse, no count is zero, and the counts add up to the number of binding sets that pass the
condition. -/
theorem run_distinct_counted (graph : Snapshot) (maxDepth : Nat) (patterns : List Pattern)
    (condition : Option Condition) (items : List ReturnItem) (nonempty : items ≠ [])
    (plain : Evaluate.Unaggregated items)
    (apart : (Evaluate.names (items ++ [.countAll])).Nodup) :
    let answer (distinct : Bool) (items : List ReturnItem) :=
      ({ patterns, condition, projection := { distinct, items } } : Query).run graph maxDepth
    (∀ error, answer true items = .error error ↔
      answer false (items ++ [.countAll]) = .error error) ∧
    (({ patterns, condition, projection := { distinct := true, items } } : Query).UsesIntroduced →
      ∃ once, answer true items = .ok once) ∧
    ∀ once, answer true items = .ok once → ∃ counted all,
      answer false (items ++ [.countAll]) = .ok counted ∧ answer false items = .ok all ∧
      counted.Counts once all ∧
      (¬ once.Refused → ∃ kept,
        (Evaluate.filter condition (Match.patterns graph maxDepth patterns).value).run.value =
          .ok kept ∧
        (∀ row ∈ once.rows, 0 < all.rows.countP row.same) ∧
        (once.rows.map fun row => all.rows.countP row.same).sum = kept.length) := by
  intro answer
  have answered (introduced : UsesIntroduced
      { patterns, condition, projection := { distinct := true, items } }) :
      ∃ once, answer true items = .ok once :=
    (introduced.bindsUses graph maxDepth).refused_or_answers.imp fun _ => And.left
  rcases keys_or_failed graph maxDepth patterns condition plain (Evaluate.nodup_names apart) with
    ⟨kept, keyOf, ended, given⟩ | ⟨error, each, counted⟩
  · obtain ⟨once, counted, all, ranOnce, ranCounted, ranAll, counts, positive, total⟩ :=
      counts_of_keys plain apart nonempty ended given
    refine ⟨fun error => ?_, answered, fun table ran => ?_⟩
    · exact iff_of_false (fun failed => nomatch ranOnce.symm.trans failed)
        fun failed => nomatch ranCounted.symm.trans failed
    · obtain rfl := Except.ok.inj (ranOnce.symm.trans ran)
      exact ⟨counted, all, ranCounted, ranAll, counts, fun _ => ⟨kept, ended, positive, total⟩⟩
  · have sameCounted : answer false (items ++ [.countAll]) = answer true items :=
      run_eq_of_failed counted (each true)
    have sameAll : answer false items = answer true items :=
      run_eq_of_failed (each false) (each true)
    refine ⟨fun error => by rw [sameCounted], answered, fun once ran => ?_⟩
    have refused := refused_of_failed (each true) ran
    exact ⟨once, once, sameCounted.trans ran, sameAll.trans ran, .of_refused refused,
      fun answers => absurd refused answers⟩

/-- Three nodes, of which two belong to a team of the same name. -/
def teams : Snapshot :=
  Snapshot.ofLists
    [{ id := "a", properties := [("team", .list ["x", "y"])] }, { id := "b" },
      { id := "c", properties := [("team", .list ["x", "y"])] }] []

/-- `n.team` -/
def teamItem : ReturnItem where
  expression := .property { owner := { name := "n", position := {} }, property := "team" }

theorem run_distinct_counted_teams :
    [teamItem] ≠ [] ∧ Evaluate.Unaggregated [teamItem] ∧
    (Evaluate.names [teamItem, .countAll]).Nodup ∧
    let answer (distinct : Bool) (items : List ReturnItem) :=
      run teams 1 {
        patterns := [{ start := { binder := some { name := "n", position := {} } }, hops := [] }]
        condition := none
        projection := { distinct, items } }
    ∃ once counted all, answer true [teamItem] = .ok once ∧
      answer false [teamItem, .countAll] = .ok counted ∧ answer false [teamItem] = .ok all ∧
      counted.Counts once all ∧
      counted.rows = [
        [("n.team", .list [.string "x", .string "y"]), ("COUNT(*)", .integer 2)],
        [("n.team", .null), ("COUNT(*)", .integer 1)]] := by
  have plain : Evaluate.Unaggregated [teamItem] := by
    intro item member
    obtain rfl := List.mem_singleton.mp member
    rfl
  have apart : (Evaluate.names [teamItem, .countAll]).Nodup := by decide
  refine ⟨List.cons_ne_nil _ _, plain, apart, ?_⟩
  intro answer
  obtain ⟨_, _, each⟩ := run_distinct_counted teams 1
    [{ start := { binder := some { name := "n", position := {} } }, hops := [] }] none [teamItem]
    (List.cons_ne_nil _ _) plain apart
  obtain ⟨counted, all, ranCounted, ranAll, counts, _⟩ := each _ rfl
  refine ⟨_, counted, all, rfl, ranCounted, ranAll, counts, ?_⟩
  exact Except.ok.inj ((congrArg (Except.map Table.rows) ranCounted).symm.trans rfl)

end Query

end DocumentGraph
