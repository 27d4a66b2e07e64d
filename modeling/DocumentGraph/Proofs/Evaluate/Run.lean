import DocumentGraph.Evaluate.Run
import DocumentGraph.Proofs.Evaluate.Outcome
import Mathlib.Logic.Basic

namespace DocumentGraph

open Match (Bindings)
open Query (Condition Identifier Projection QueryError ReturnItem Scope)

/-! What a query ends with.

The check of a query looks at the names that its patterns introduce, and these are the names
that every match binds.  So a checked query never meets an unbound variable: it ends with a
table, which either answers it or only reports a mismatch of types.
-/

namespace Table

/-- An empty table that reports a mismatch of types and nothing else. -/
structure Refused (table : Table) : Prop where
  columns : table.columns = []
  rows : table.rows = []
  mismatch : ∃ diagnostic, table.diagnostics = [diagnostic] ∧ diagnostic.code = .e032

/-- A table whose rows fill the columns of a projection in order, with distinct warnings. -/
structure Answers (table : Table) (projection : Projection) : Prop where
  columns : table.columns = (projection.items.map ReturnItem.columnName).eraseDups
  rows : ∀ row ∈ table.rows, row.map Prod.fst = table.columns
  warnings : ∀ diagnostic ∈ table.diagnostics, diagnostic.code = .w001
  distinct : table.diagnostics.Nodup

variable {table : Table} {projection : Projection}

theorem Refused.not_answers (refused : table.Refused) : ¬ table.Answers projection := by
  intro answers
  obtain ⟨diagnostic, reported, mismatch⟩ := refused.mismatch
  have warning := answers.warnings diagnostic (by simp [reported])
  rw [mismatch] at warning
  contradiction

end Table

namespace Query

variable {graph : Snapshot} {maxDepth : Nat} {query : Query} {allowed : QueryError → Prop}

theorem require_eq_ok_iff {scope : Scope} {identifier : Identifier} :
    scope.require identifier = .ok () ↔ (scope.lookup identifier.name).isSome := by
  unfold Scope.require
  split
  · rename_i introduced
    simpa using introduced
  · rename_i missing
    simpa using missing

theorem forM_require_eq_ok_iff {scope : Scope} {identifiers : List Identifier} :
    forM identifiers scope.require = .ok () ↔
      ∀ identifier ∈ identifiers, (scope.lookup identifier.name).isSome := by
  induction identifiers with
  | nil => simp [pure, Except.pure]
  | cons identifier rest ih =>
      rw [List.forM_cons, List.forall_mem_cons, ← ih, ← require_eq_ok_iff]
      cases scope.require identifier with
      | error reason => simp [bind, Except.bind]
      | ok value => simp [bind, Except.bind]

theorem check_eq_ok_iff : query.check = .ok () ↔
    ∃ scope, Scope.ofPatterns query.patterns = .ok scope ∧
      ∀ identifier ∈ query.uses, (scope.lookup identifier.name).isSome := by
  unfold check
  cases Scope.ofPatterns query.patterns with
  | error reason => simp [bind, Except.bind]
  | ok scope =>
      have accepts : (∃ scope', (.ok scope : Except QueryError Scope) = .ok scope' ∧
          ∀ identifier ∈ query.uses, (scope'.lookup identifier.name).isSome) ↔
          ∀ identifier ∈ query.uses, (scope.lookup identifier.name).isSome := by
        simp only [Except.ok.injEq, exists_eq_left']
      rw [accepts]
      exact forM_require_eq_ok_iff

/-- A checked query binds every variable that it uses. -/
theorem bound_of_check (accepted : query.check = .ok ()) {bindings : Bindings}
    (found : bindings ∈ (Match.patterns graph maxDepth query.patterns).value)
    {identifier : Identifier} (used : identifier ∈ query.uses) :
    (bindings.element? identifier).isSome := by
  obtain ⟨scope, introduced, within⟩ := check_eq_ok_iff.mp accepted
  have described := Scope.describes_patterns introduced bindings found identifier.name
  have known := within identifier used
  rw [described, Option.isSome_map] at known
  exact known

theorem meets_rows
    (mismatch : ∀ operator left right, allowed (.typeMismatch operator left right))
    (admitted : ∀ bindings ∈ (Match.patterns graph maxDepth query.patterns).value,
      Evaluate.Admits allowed bindings query.uses) :
    Evaluation.Meets (query.rows graph maxDepth) allowed (fun found =>
      ∀ row ∈ found, row.map Prod.fst = (Evaluate.names query.projection.items).eraseDups) := by
  have matched : Evaluation.Meets (liftM (Match.patterns graph maxDepth query.patterns)) allowed
      (fun sets => ∀ bindings ∈ sets, Evaluate.Admits allowed bindings query.uses) :=
    Evaluation.meets_lift (Match.harmless_patterns query.patterns) admitted
  refine matched.bind fun sets admitted => ?_
  refine (Evaluate.meets_filter mismatch fun bindings member =>
    (admitted bindings member).of_subset (List.subset_append_left _ _)).bind fun kept within => ?_
  refine Evaluate.meets_project fun bindings member item chosen => ?_
  refine (admitted bindings (within member)).of_subset fun identifier used => ?_
  exact List.mem_append_right _ (List.mem_flatMap.mpr ⟨item, chosen, used⟩)

theorem run_of_rows {rows : List Row} (found : (query.rows graph maxDepth).run.value = .ok rows) :
    query.run graph maxDepth = .ok {
      columns := Evaluate.columns query.projection
      rows
      diagnostics :=
        Ordered.distinctBy (· = ·) (query.rows graph maxDepth).run.warnings } := by
  simp only [run, found]

theorem run_of_failure {error : QueryError}
    (failed : (query.rows graph maxDepth).run.value = .error error) :
    query.run graph maxDepth =
      if error.isRecoverable then
        .ok { columns := [], rows := [], diagnostics := [error.diagnostic] }
      else .error error := by
  simp only [run, failed]

/-- A run that finds rows answers with them. -/
theorem run_answers
    (met : Evaluation.Meets (query.rows graph maxDepth) allowed (fun found =>
      ∀ row ∈ found, row.map Prod.fst = (Evaluate.names query.projection.items).eraseDups))
    {rows : List Row} (found : (query.rows graph maxDepth).run.value = .ok rows) :
    ∃ table, query.run graph maxDepth = .ok table ∧ table.Answers query.projection ∧
      table.rows = rows ∧
      table.diagnostics = (query.rows graph maxDepth).run.warnings.eraseDups := by
  obtain ⟨harmless, outcome⟩ := met
  rw [found] at outcome
  have columns : Evaluate.columns query.projection =
      (query.projection.items.map ReturnItem.columnName).eraseDups :=
    Ordered.distinctBy_eq_eraseDups _
  refine ⟨_, run_of_rows found, ⟨columns, ?_, ?_, ?_⟩, rfl, Ordered.distinctBy_eq_eraseDups _⟩
  · intro row member
    exact (outcome row member).trans columns.symm
  · intro diagnostic member
    exact harmless diagnostic ((Ordered.distinctBy_sublist _ _).subset member)
  · rw [Ordered.distinctBy_eq_eraseDups]
    exact Ordered.nodup_eraseDups _

/-- A run answers, or it refuses, or it fails in an allowed way. -/
theorem run_cases
    (met : Evaluation.Meets (query.rows graph maxDepth) allowed (fun found =>
      ∀ row ∈ found, row.map Prod.fst = (Evaluate.names query.projection.items).eraseDups)) :
    (∃ table, query.run graph maxDepth = .ok table ∧ table.Answers query.projection) ∨
    (∃ table, query.run graph maxDepth = .ok table ∧ table.Refused) ∨
    (∃ error, query.run graph maxDepth = .error error ∧ allowed error ∧
      error.isRecoverable = false) := by
  cases ended : (query.rows graph maxDepth).run.value with
  | ok rows =>
      obtain ⟨table, ran, answers, _⟩ := run_answers met ended
      exact .inl ⟨table, ran, answers⟩
  | error error =>
      have outcome := met.outcome
      rw [ended] at outcome
      have result := run_of_failure ended
      cases recoverable : error.isRecoverable with
      | false =>
          rw [recoverable] at result
          exact .inr (.inr ⟨error, result, outcome, recoverable⟩)
      | true =>
          rw [recoverable] at result
          refine .inr (.inl ⟨_, result, rfl, rfl, error.diagnostic, rfl, ?_⟩)
          cases error with
          | typeMismatch operator left right => rfl
          | _ => contradiction

/-- A checked query ends with a table of one of two shapes, and any query can fail only by
asking for a property of an unbound variable. -/
theorem run_outcome (graph : Snapshot) (maxDepth : Nat) (query : Query) :
    (query.check = .ok () → ∃ table, query.run graph maxDepth = .ok table ∧
      Xor table.Refused (table.Answers query.projection)) ∧
    (∀ error, query.run graph maxDepth = .error error →
      ∃ reason position, error = .invalidPropertyAccess reason position) := by
  constructor
  · intro accepted
    have recoverable : Evaluation.Meets (query.rows graph maxDepth) (·.isRecoverable) _ :=
      meets_rows (fun _ _ _ => rfl) fun bindings found identifier used =>
        .inl (bound_of_check accepted found used)
    rcases run_cases recoverable with
      ⟨table, ended, answers⟩ | ⟨table, ended, refused⟩ | ⟨error, _, tolerated, impossible⟩
    · exact ⟨table, ended, .inr ⟨answers, fun refused => refused.not_answers answers⟩⟩
    · exact ⟨table, ended, .inl ⟨refused, refused.not_answers⟩⟩
    · rw [impossible] at tolerated
      contradiction
  · intro error failed
    have known : Evaluation.Meets (query.rows graph maxDepth) (fun error =>
        error.isRecoverable ∨ ∃ reason position, error = .invalidPropertyAccess reason position) _ :=
      meets_rows (fun _ _ _ => .inl rfl) fun bindings found identifier used =>
        .inr fun reason position => .inr ⟨reason, position, rfl⟩
    rcases run_cases known with
      ⟨table, ended, _⟩ | ⟨table, ended, _⟩ | ⟨other, ended, tolerated, unrecoverable⟩
    · rw [ended] at failed
      contradiction
    · rw [ended] at failed
      contradiction
    · rw [ended, Except.error.injEq] at failed
      subst failed
      rcases tolerated with recoverable | access
      · rw [unrecoverable] at recoverable
        contradiction
      · exact access

end Query

end DocumentGraph
