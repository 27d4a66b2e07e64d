import DocumentGraph.Proofs.Match.Valuation

namespace DocumentGraph

open Match (Bindings)
open Query (Condition Identifier Operand Projection PropertyAccess QueryError)

/-! Which binding sets a query keeps, and how many.

A condition judges every binding set by itself, by what its variables stand for.  So the order
of the binding sets says at most which of several failures is met first: whether one is met,
and which sets are kept if none is, does not depend on it.
-/

namespace Evaluate

variable {left right : Bindings} {sets others : List Bindings} {condition? : Option Condition}

theorem property_eq_of_valuation (same : left.valuation = right.valuation)
    (access : PropertyAccess) : property left access = property right access := by
  have found : left.element? access.owner = right.element? access.owner :=
    congrFun same access.owner.name
  rw [property, property, element, element, found]

theorem operand_eq_of_valuation (same : left.valuation = right.valuation) (given : Operand) :
    operand left given = operand right given := by
  cases given with
  | property access => exact property_eq_of_valuation same access
  | literal value => rfl

theorem condition_eq_of_valuation (same : left.valuation = right.valuation) (given : Condition) :
    condition left given = condition right given := by
  induction given with
  | comparison access operator given =>
      rw [condition, condition, property_eq_of_valuation same, operand_eq_of_valuation same]
  | nullCheck access negated => rw [condition, condition, property_eq_of_valuation same]
  | not inner ih => rw [condition, condition, ih]
  | and first second firstIH secondIH => rw [condition, condition, firstIH, secondIH]
  | or first second firstIH secondIH => rw [condition, condition, firstIH, secondIH]

/-- What a condition makes of one binding set. -/
def verdict (condition? : Option Condition) (bindings : Bindings) : Except QueryError Bool :=
  match condition? with
  | none => .ok true
  | some given => (condition bindings given).run.value

theorem verdict_factorsThrough (condition? : Option Condition) :
    (verdict condition?).FactorsThrough Bindings.valuation := by
  intro left right same
  cases condition? with
  | none => rfl
  | some given =>
      have judged := condition_eq_of_valuation same given
      simp only [verdict, judged]

/-- The verdict lets a binding set pass. -/
def passes (condition? : Option Condition) (bindings : Bindings) : Bool :=
  (verdict condition? bindings).toOption = some true

theorem value_keep_cons (given : Condition) (bindings : Bindings) (rest : List Bindings) :
    (filter.keep given (bindings :: rest)).run.value =
      verdict (some given) bindings >>= fun holds =>
      (filter.keep given rest).run.value >>= fun others =>
        .ok (if holds then bindings :: others else others) := by
  simp only [filter.keep, Evaluation.value_run_bind]
  rfl

theorem keep_of_ok {given : Condition}
    (judged : ∀ bindings ∈ sets, ∃ holds, verdict (some given) bindings = .ok holds) :
    (filter.keep given sets).run.value = .ok (sets.filter (passes (some given))) := by
  induction sets with
  | nil => rfl
  | cons bindings rest ih =>
      obtain ⟨⟨holds, first⟩, others⟩ := List.forall_mem_cons.mp judged
      have passed : passes (some given) bindings = holds := by
        simp [passes, first, Except.toOption]
      rw [value_keep_cons, first, ih others, List.filter_cons, passed]
      rfl

theorem keep_of_error {given : Condition} {bindings : Bindings} {error : QueryError}
    (member : bindings ∈ sets) (failed : verdict (some given) bindings = .error error) :
    ∃ reported, (filter.keep given sets).run.value = .error reported := by
  induction sets with
  | nil => contradiction
  | cons first rest ih =>
      rw [value_keep_cons]
      cases judged : verdict (some given) first with
      | error earlier => exact ⟨earlier, rfl⟩
      | ok holds =>
          rcases List.mem_cons.mp member with rfl | later
          · rw [judged] at failed
            contradiction
          · obtain ⟨reported, ended⟩ := ih later
            exact ⟨reported, by rw [ended]; rfl⟩

/-- A filter whose verdicts all succeed keeps the binding sets that pass. -/
theorem filter_of_ok (judged : ∀ bindings ∈ sets, ∃ holds, verdict condition? bindings = .ok holds) :
    (filter condition? sets).run.value = .ok (sets.filter (passes condition?)) := by
  cases condition? with
  | none =>
      have all : sets.filter (passes none) = sets := List.filter_eq_self.mpr fun _ _ => rfl
      rw [all]
      rfl
  | some given => exact keep_of_ok judged

/-- A filter fails when one of its verdicts does. -/
theorem filter_of_error {bindings : Bindings} {error : QueryError} (member : bindings ∈ sets)
    (failed : verdict condition? bindings = .error error) :
    ∃ reported, (filter condition? sets).run.value = .error reported := by
  cases condition? with
  | none => contradiction
  | some given => exact keep_of_error member failed

theorem judged_or_failed (condition? : Option Condition) (sets : List Bindings) :
    (∀ bindings ∈ sets, ∃ holds, verdict condition? bindings = .ok holds) ∨
      ∃ bindings ∈ sets, ∃ error, verdict condition? bindings = .error error := by
  by_cases failing : ∃ bindings ∈ sets, ∃ error, verdict condition? bindings = .error error
  · exact .inr failing
  · refine .inl fun bindings member => ?_
    cases judged : verdict condition? bindings with
    | ok holds => exact ⟨holds, rfl⟩
    | error error => exact absurd ⟨bindings, member, error, judged⟩ failing

theorem passes_factorsThrough (condition? : Option Condition) :
    (passes condition?).FactorsThrough Bindings.valuation := by
  intro left right same
  have judged := verdict_factorsThrough condition? same
  exact congrArg (fun verdict => decide (verdict.toOption = some true)) judged

theorem filter_passes_perm (condition? : Option Condition)
    (same : (sets.map Bindings.valuation).Perm (others.map Bindings.valuation)) :
    ((sets.filter (passes condition?)).map Bindings.valuation).Perm
      ((others.filter (passes condition?)).map Bindings.valuation) := by
  let shown (bindings : Bindings) : Option (String → Option Match.Element) :=
    if passes condition? bindings then some bindings.valuation else none
  have factors : shown.FactorsThrough Bindings.valuation := by
    intro left right equal
    simp only [shown, passes_factorsThrough condition? equal, equal]
  have kept (list : List Bindings) :
      (list.map shown).filterMap id = (list.filter (passes condition?)).map Bindings.valuation :=
    Match.Enumerates.filterMap_map_eq fun _ _ => rfl
  rw [← kept, ← kept]
  exact (Match.map_perm_of_valuation factors same).filterMap id

/-- Binding sets in another order are kept as well, or fail as well. -/
theorem filter_perm (condition? : Option Condition)
    (same : (sets.map Bindings.valuation).Perm (others.map Bindings.valuation)) :
    (∃ kept kept', (filter condition? sets).run.value = .ok kept ∧
      (filter condition? others).run.value = .ok kept' ∧
      (kept.map Bindings.valuation).Perm (kept'.map Bindings.valuation)) ∨
    (∃ error error', (filter condition? sets).run.value = .error error ∧
      (filter condition? others).run.value = .error error') := by
  have verdicts : (sets.map (verdict condition?)).Perm (others.map (verdict condition?)) :=
    Match.map_perm_of_valuation (verdict_factorsThrough condition?) same
  rcases judged_or_failed condition? sets with judged | ⟨bindings, inSets, error, failed⟩
  · have judged' : ∀ bindings ∈ others, ∃ holds, verdict condition? bindings = .ok holds := by
      intro bindings member
      obtain ⟨other, inSets, equal⟩ :=
        List.mem_map.mp (verdicts.mem_iff.mpr (List.mem_map_of_mem member))
      obtain ⟨holds, passed⟩ := judged other inSets
      exact ⟨holds, equal.symm.trans passed⟩
    exact .inl ⟨_, _, filter_of_ok judged, filter_of_ok judged',
      filter_passes_perm condition? same⟩
  · have member : .error error ∈ sets.map (verdict condition?) :=
      failed ▸ List.mem_map_of_mem inSets
    obtain ⟨bindings', inOthers, failed'⟩ := List.mem_map.mp (verdicts.mem_iff.mp member)
    obtain ⟨reported, ended⟩ := filter_of_error inSets failed
    obtain ⟨reported', ended'⟩ := filter_of_error inOthers failed'
    exact .inr ⟨reported, reported', ended, ended'⟩

/-- `COUNT(*)`, and nothing else. -/
def countAll (distinct : Bool) (columnAlias : Option String) : Projection where
  distinct := distinct
  items := [{
    expression := .aggregate { function := .count, distinct := false, argument := .star }
    columnAlias }]

variable {distinct : Bool} {columnAlias : Option String}

/-- Without other items there is nothing to group by. -/
theorem groupKey_countAll (bindings : Bindings) :
    groupKey (countAll distinct columnAlias).items bindings = pure [] := rfl

theorem foldlM_joinGroup_countAll (done rest : List Bindings) :
    rest.foldlM (fun found bindings => do
      return joinGroup (← groupKey (countAll distinct columnAlias).items bindings) bindings found)
      [{ key := [], members := done }] =
    (pure [{ key := [], members := done ++ rest }] : Evaluation (List Group)) := by
  induction rest generalizing done with
  | nil => simp
  | cons bindings rest ih =>
      rw [List.foldlM_cons, groupKey_countAll, pure_bind, pure_bind]
      exact (ih (done ++ [bindings])).trans (by rw [List.append_assoc]; rfl)

theorem groups_countAll (sets : List Bindings) :
    groups (countAll distinct columnAlias).items sets = pure [{ key := [], members := sets }] := by
  unfold groups
  cases sets with
  | nil => rfl
  | cons bindings rest =>
      rw [List.foldlM_cons, groupKey_countAll, pure_bind, pure_bind, joinGroup,
        foldlM_joinGroup_countAll, pure_bind]
      rfl

theorem value_project_countAll :
    (project (countAll distinct columnAlias) sets).run.value =
      .ok [[(columnAlias.getD "COUNT(*)", .integer sets.length)]] := by
  have found : rows (countAll distinct columnAlias) sets =
      pure [[(columnAlias.getD "COUNT(*)", .integer sets.length)]] := by
    unfold rows
    rw [groups_countAll]
    rfl
  rw [project, found]
  cases distinct with
  | true => rfl
  | false => rfl

end Evaluate

namespace Query

variable {graph : Snapshot} {maxDepth : Nat} {query other : Query}

/-- Every match binds the variables that the query uses. -/
def BindsUses (query : Query) (graph : Snapshot) (maxDepth : Nat) : Prop :=
  ∀ bindings ∈ (Match.patterns graph maxDepth query.patterns).value, ∀ identifier ∈ query.uses,
    (bindings.element? identifier).isSome

theorem bindsUses_of_check (accepted : query.check = .ok ()) : query.BindsUses graph maxDepth :=
  fun _ found _ used => bound_of_check accepted found used

theorem BindsUses.meets (bound : query.BindsUses graph maxDepth) :
    Evaluation.Meets (query.rows graph maxDepth) (·.isRecoverable) (fun found =>
      ∀ row ∈ found, row.map Prod.fst = (Evaluate.names query.projection.items).eraseDups) :=
  meets_rows (fun _ _ _ => rfl) fun bindings found identifier used =>
    .inl (bound bindings found identifier used)

/-- A failure of a query that binds its variables is a mismatch of types, reported in an empty
table. -/
theorem BindsUses.run_of_failure (bound : query.BindsUses graph maxDepth) {error : QueryError}
    (failed : (query.rows graph maxDepth).run.value = .error error) :
    query.run graph maxDepth =
        .ok { columns := [], rows := [], diagnostics := [error.diagnostic] } ∧
      error.diagnostic.code = .e032 := by
  have tolerated := bound.meets.outcome
  rw [failed] at tolerated
  refine ⟨by rw [Query.run_of_failure failed, if_pos tolerated], ?_⟩
  cases error with
  | typeMismatch operator left right => rfl
  | _ => contradiction

theorem BindsUses.refused_or_answers (bound : query.BindsUses graph maxDepth) :
    ∃ table, query.run graph maxDepth = .ok table ∧
      (table.Refused ∨ table.Answers query.projection) := by
  cases ended : (query.rows graph maxDepth).run.value with
  | error error =>
      obtain ⟨ran, mismatch⟩ := bound.run_of_failure ended
      exact ⟨_, ran, .inl ⟨rfl, rfl, error.diagnostic, rfl, mismatch⟩⟩
  | ok rows =>
      obtain ⟨table, ran, answers, _⟩ := run_answers bound.meets ended
      exact ⟨table, ran, .inr answers⟩

/-- Two queries that find the same rows, or fail alike, give the same table apart from what they
report. -/
theorem run_eq_of_rows (bound : query.BindsUses graph maxDepth)
    (otherBound : other.BindsUses graph maxDepth) (projected : query.projection = other.projection)
    (same : (query.rows graph maxDepth).run.value = (other.rows graph maxDepth).run.value) :
    ∃ table table', query.run graph maxDepth = .ok table ∧ other.run graph maxDepth = .ok table' ∧
      table.columns = table'.columns ∧ table.rows = table'.rows ∧
      (table.Refused ↔ table'.Refused) := by
  cases ended : (query.rows graph maxDepth).run.value with
  | error error =>
      obtain ⟨ran, _⟩ := bound.run_of_failure ended
      obtain ⟨otherRan, _⟩ := otherBound.run_of_failure (same.symm.trans ended)
      exact ⟨_, _, ran, otherRan, rfl, rfl, Iff.rfl⟩
  | ok rows =>
      obtain ⟨table, ran, answers, found, _⟩ := run_answers bound.meets ended
      obtain ⟨table', ran', answers', found', _⟩ :=
        run_answers otherBound.meets (same.symm.trans ended)
      refine ⟨table, table', ran, ran', ?_, found.trans found'.symm, ?_⟩
      · rw [answers.columns, answers'.columns, projected]
      · exact iff_of_false (fun refused => refused.not_answers answers)
          fun refused => refused.not_answers answers'

theorem value_rows : (query.rows graph maxDepth).run.value =
    (Evaluate.filter query.condition
      (Match.patterns graph maxDepth query.patterns).value).run.value >>= fun kept =>
        (Evaluate.project query.projection kept).run.value := by
  have matched : (liftM (Match.patterns graph maxDepth query.patterns) :
      Evaluation (List Bindings)).run.value =
        .ok (Match.patterns graph maxDepth query.patterns).value := rfl
  rw [rows, Evaluation.value_run_bind, matched]
  exact Evaluation.value_run_bind _ _

/-- The rows of a query whose filter succeeds, and all that is noted on the way. -/
theorem run_rows_of_kept {kept : List Bindings}
    (ended : (Evaluate.filter query.condition
      (Match.patterns graph maxDepth query.patterns).value).run.value = .ok kept) :
    (query.rows graph maxDepth).run = {
      value := (Evaluate.project query.projection kept).run.value
      warnings := (Match.patterns graph maxDepth query.patterns).warnings ++
        ((Evaluate.filter query.condition
          (Match.patterns graph maxDepth query.patterns).value).run.warnings ++
        (Evaluate.project query.projection kept).run.warnings) } := by
  have matched : (liftM (Match.patterns graph maxDepth query.patterns) :
      Evaluation (List Bindings)).run = {
        value := .ok (Match.patterns graph maxDepth query.patterns).value
        warnings := (Match.patterns graph maxDepth query.patterns).warnings } :=
    Evaluation.run_lift _
  rw [rows, Evaluation.run_bind_of_ok (congrArg Noted.value matched), matched,
    Evaluation.run_bind_of_ok ended]

/-- Two checked queries that count the same binding sets give the same table, apart from what
they report. -/
theorem run_countAll {distinct : Bool} {columnAlias : Option String}
    (accepted : query.check = .ok ()) (accepted' : other.check = .ok ())
    (counts : query.projection = Evaluate.countAll distinct columnAlias)
    (counts' : other.projection = Evaluate.countAll distinct columnAlias)
    (sameCondition : query.condition = other.condition)
    (same : ((Match.patterns graph maxDepth query.patterns).value.map Bindings.valuation).Perm
      ((Match.patterns graph maxDepth other.patterns).value.map Bindings.valuation)) :
    ∃ table table', query.run graph maxDepth = .ok table ∧ other.run graph maxDepth = .ok table' ∧
      table.columns = table'.columns ∧ table.rows = table'.rows := by
  have first : (query.rows graph maxDepth).run.value = _ := value_rows
  have second : (other.rows graph maxDepth).run.value = _ := value_rows
  rcases Evaluate.filter_perm query.condition same with
    ⟨kept, kept', ended, ended', permuted⟩ | ⟨error, error', ended, ended'⟩
  · have count : kept.length = kept'.length := by simpa using permuted.length_eq
    rw [ended, counts] at first
    rw [← sameCondition, ended', counts'] at second
    refine ⟨_, _, run_of_rows (first.trans Evaluate.value_project_countAll),
      run_of_rows (second.trans Evaluate.value_project_countAll), ?_, ?_⟩
    · rw [counts, counts']
    · rw [count]
  · rw [ended] at first
    rw [← sameCondition, ended'] at second
    exact ⟨_, _, ((bindsUses_of_check accepted).run_of_failure first).1,
      ((bindsUses_of_check accepted').run_of_failure second).1, rfl, rfl⟩

end Query

end DocumentGraph
