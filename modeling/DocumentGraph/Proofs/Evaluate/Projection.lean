import DocumentGraph.Proofs.Evaluate.Selection

namespace DocumentGraph

open Match (Bindings)
open Query (Condition Projection QueryError ReturnItem)

/-! Rows of single binding sets.

Without aggregates and without DISTINCT the rows of a query are those of the binding sets that
pass its condition, one for each and in their order.
-/

namespace Query

/-- Every binding set makes a row of its own. -/
structure Projection.Plain (projection : Projection) : Prop where
  repeating : projection.distinct = false
  single : projection.hasAggregate = false

end Query

namespace Evaluate

variable {projection : Projection} {items : List ReturnItem} {bindings : Bindings}
  {sets : List Bindings}

/-- The binding set binds the variables that the items use. -/
def BindsItems (items : List ReturnItem) (bindings : Bindings) : Prop :=
  ∀ item ∈ items, ∀ identifier ∈ item.expression.uses, (bindings.element? identifier).isSome

theorem BindsItems.admits {allowed : QueryError → Prop} (bound : BindsItems items bindings) :
    ∀ item ∈ items, Admits allowed bindings item.expression.uses :=
  fun item member identifier used => .inl (bound item member identifier used)

/-- The row of a binding set that binds the variables of the items. -/
def rowOf (items : List ReturnItem) (bindings : Bindings) : Row :=
  (plainRow items bindings).valueOr []

theorem value_plainRow (bound : BindsItems items bindings) :
    (plainRow items bindings).run.value = .ok (rowOf items bindings) :=
  (meets_plainRow bound.admits).succeeds.value_eq []

theorem run_project_of_plain (plain : projection.Plain)
    (bound : ∀ bindings ∈ sets, BindsItems projection.items bindings) :
    (project projection sets).run = {
      value := .ok (sets.map (rowOf projection.items))
      warnings := sets.flatMap fun bindings =>
        (plainRow projection.items bindings).run.warnings } := by
  have each := Evaluation.run_mapM fun bindings member => value_plainRow (bound bindings member)
  have found : rows projection sets = sets.mapM (plainRow projection.items) := by
    rw [rows, if_neg (by simp [plain.single])]
  rw [project, found, Evaluation.run_bind_of_ok (congrArg Noted.value each), each,
    if_neg (by simp [plain.repeating])]
  simp

end Evaluate

namespace Query

variable {graph : Snapshot} {maxDepth : Nat} {query : Query} {bindings : Bindings}

theorem BindsUses.items (bound : query.BindsUses graph maxDepth)
    (found : bindings ∈ (Match.patterns graph maxDepth query.patterns).value) :
    Evaluate.BindsItems query.projection.items bindings :=
  fun item member identifier used => bound bindings found identifier
    (List.mem_append_right _ (List.mem_flatMap.mpr ⟨item, member, used⟩))

/-- A query whose condition fails on no match answers with the rows of those that pass. -/
theorem answers_of_judged (bound : query.BindsUses graph maxDepth)
    (plain : query.projection.Plain)
    (judged : ∀ bindings ∈ (Match.patterns graph maxDepth query.patterns).value,
      ∃ holds, Evaluate.verdict query.condition bindings = .ok holds) :
    ∃ table, query.run graph maxDepth = .ok table ∧ table.Answers query.projection ∧
      table.rows = ((Match.patterns graph maxDepth query.patterns).value.filter
        (Evaluate.passes query.condition)).map (Evaluate.rowOf query.projection.items) := by
  have kept : ∀ bindings ∈ (Match.patterns graph maxDepth query.patterns).value.filter
      (Evaluate.passes query.condition), Evaluate.BindsItems query.projection.items bindings :=
    fun bindings kept => bound.items (List.mem_of_mem_filter kept)
  have found : (query.rows graph maxDepth).run.value = .ok
      (((Match.patterns graph maxDepth query.patterns).value.filter
        (Evaluate.passes query.condition)).map (Evaluate.rowOf query.projection.items)) := by
    rw [value_rows, Evaluate.filter_of_ok judged]
    exact congrArg Noted.value (Evaluate.run_project_of_plain plain kept)
  obtain ⟨table, ran, answers, rows, _⟩ := run_answers bound.meets found
  exact ⟨table, ran, answers, rows⟩

/-- A query whose condition fails reports the first failure and nothing else. -/
theorem run_of_misjudged (bound : query.BindsUses graph maxDepth) {error : QueryError}
    (failed : (Evaluate.filter query.condition
      (Match.patterns graph maxDepth query.patterns).value).run.value = .error error) :
    ∃ table, query.run graph maxDepth = .ok table ∧ table.Refused ∧
      table = { columns := [], rows := [], diagnostics := [error.diagnostic] } := by
  have stopped : (query.rows graph maxDepth).run.value = .error error := by
    rw [value_rows, failed]
    rfl
  obtain ⟨ran, mismatch⟩ := bound.run_of_failure stopped
  exact ⟨_, ran, ⟨rfl, rfl, _, rfl, mismatch⟩, rfl⟩

/-- A query that does not refuse has a verdict on every match. -/
theorem judged_of_answered (bound : query.BindsUses graph maxDepth)
    (answered : ∀ table, query.run graph maxDepth = .ok table → ¬ table.Refused) :
    ∀ bindings ∈ (Match.patterns graph maxDepth query.patterns).value,
      ∃ holds, Evaluate.verdict query.condition bindings = .ok holds := by
  rcases Evaluate.judged_or_failed query.condition
    (Match.patterns graph maxDepth query.patterns).value with
    judged | ⟨bindings, member, error, failed⟩
  · exact judged
  · obtain ⟨reported, ended⟩ := Evaluate.filter_of_error member failed
    obtain ⟨table, ran, refused, _⟩ := run_of_misjudged bound ended
    exact absurd refused (answered table ran)

end Query

end DocumentGraph
