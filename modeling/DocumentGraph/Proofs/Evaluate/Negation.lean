import DocumentGraph.Proofs.Match.Introduced

namespace DocumentGraph

open Match (Bindings)
open Query (Condition Identifier Pattern Projection QueryError ReturnExpression)

/-! Conditions and their negations.

A condition is two-valued where it does not fail: what it makes of NULL and of missing properties
is true or false like anything else, and a side of AND and OR that is not looked at is looked at
by neither a condition nor its negation.  So a condition and its negation fail on the same binding
sets, in the same way, and share the other binding sets among them.
-/

/-- The third list is made up of the other two, each in its own order. -/
inductive Interleaves {α : Type} : List α → List α → List α → Prop where
  | nil : Interleaves [] [] []
  | left {first : α} {lefts rights all : List α} :
      Interleaves lefts rights all → Interleaves (first :: lefts) rights (first :: all)
  | right {first : α} {lefts rights all : List α} :
      Interleaves lefts rights all → Interleaves lefts (first :: rights) (first :: all)

namespace Interleaves

variable {α β : Type}

theorem map {lefts rights all : List α} (interleaved : Interleaves lefts rights all) (f : α → β) :
    Interleaves (lefts.map f) (rights.map f) (all.map f) := by
  induction interleaved with
  | nil => exact nil
  | left _ ih => exact left ih
  | right _ ih => exact right ih

/-- Every member of a list passes exactly one of two tests. -/
theorem filter {values : List α} {test other : α → Bool}
    (opposite : ∀ value ∈ values, other value = !test value) :
    Interleaves (values.filter test) (values.filter other) values := by
  induction values with
  | nil => exact nil
  | cons value rest ih =>
      obtain ⟨first, others⟩ := List.forall_mem_cons.mp opposite
      rw [List.filter_cons, List.filter_cons, first]
      cases test value with
      | true => exact left (ih others)
      | false => exact right (ih others)

end Interleaves

namespace Evaluate

variable {given : Condition} {bindings : Bindings} {sets : List Bindings}

theorem verdict_not (given : Condition) (bindings : Bindings) :
    verdict (some given.not) bindings = (verdict (some given) bindings).map not := by
  have judged : (condition bindings given.not).run.value =
      (condition bindings given).run.value >>= fun holds => .ok (!holds) := by
    rw [condition]
    exact Evaluation.value_run_bind _ _
  rw [verdict, judged, verdict]
  cases (condition bindings given).run.value <;> rfl

theorem passes_not {holds : Bool} (judged : verdict (some given) bindings = .ok holds) :
    passes (some given.not) bindings = !passes (some given) bindings := by
  rw [passes, passes, verdict_not, judged]
  cases holds <;> rfl

/-- The first failure is the same one. -/
theorem keep_not_eq_error {error : QueryError}
    (failed : (filter.keep given sets).run.value = .error error) :
    (filter.keep given.not sets).run.value = .error error := by
  induction sets with
  | nil => contradiction
  | cons bindings rest ih =>
      rw [value_keep_cons] at failed ⊢
      rw [verdict_not]
      cases judged : verdict (some given) bindings with
      | error reported =>
          rw [judged] at failed
          exact failed
      | ok holds =>
          rw [judged] at failed
          cases others : (filter.keep given rest).run.value with
          | error reported =>
              have same : reported = error := by
                rw [others] at failed
                exact Except.error.inj failed
              have negated := ih (others.trans (congrArg Except.error same))
              simp only [Except.map, negated]
              rfl
          | ok kept =>
              rw [others] at failed
              contradiction

theorem judged_of_filter {condition? : Option Condition} {kept : List Bindings}
    (ended : (filter condition? sets).run.value = .ok kept) :
    ∀ bindings ∈ sets, ∃ holds, verdict condition? bindings = .ok holds := by
  rcases judged_or_failed condition? sets with judged | ⟨bindings, member, error, failing⟩
  · exact judged
  · obtain ⟨reported, failed⟩ := filter_of_error member failing
    rw [failed] at ended
    contradiction

/-- A condition and its negation keep every binding set between them, each in its order. -/
theorem filter_not_interleaves
    (judged : ∀ bindings ∈ sets, ∃ holds, verdict (some given) bindings = .ok holds) :
    (∀ bindings ∈ sets, ∃ holds, verdict (some given.not) bindings = .ok holds) ∧
    Interleaves (sets.filter (passes (some given))) (sets.filter (passes (some given.not))) sets := by
  constructor
  · intro bindings member
    obtain ⟨holds, result⟩ := judged bindings member
    exact ⟨!holds, by rw [verdict_not, result]; rfl⟩
  · refine Interleaves.filter fun bindings member => ?_
    obtain ⟨holds, result⟩ := judged bindings member
    exact passes_not result

end Evaluate

namespace Query

variable {graph : Snapshot} {maxDepth : Nat} {patterns : List Pattern} {given : Condition}
  {projection : Projection}

/-- Where the condition fails, the two queries report its first failure in the same table. -/
theorem run_not_of_failed
    (introduced : UsesIntroduced { patterns, condition := some given, projection })
    {error : QueryError} (failed : (Evaluate.filter (some given)
      (Match.patterns graph maxDepth patterns).value).run.value = .error error) :
    ∃ table, table.Refused ∧
      ({ patterns, condition := some given, projection } : Query).run graph maxDepth = .ok table ∧
      ({ patterns, condition := some given.not, projection } : Query).run graph maxDepth =
        .ok table := by
  have bound := introduced.bindsUses graph maxDepth
  have negatedBound : BindsUses { patterns, condition := some given.not, projection } graph
      maxDepth := bound
  obtain ⟨table, ran, refused, reports⟩ := run_of_misjudged bound failed
  obtain ⟨negated, ranNegated, _, reportsNegated⟩ :=
    run_of_misjudged negatedBound (Evaluate.keep_not_eq_error failed)
  exact ⟨table, refused, ran, ranNegated.trans (congrArg _ (reportsNegated.trans reports.symm))⟩

/-- Where the condition fails nowhere, the rows of the two queries make up those without it. -/
theorem answers_interleave (plain : projection.Plain)
    (introduced : UsesIntroduced { patterns, condition := some given, projection })
    (judged : ∀ bindings ∈ (Match.patterns graph maxDepth patterns).value,
      ∃ holds, Evaluate.verdict (some given) bindings = .ok holds) :
    ∃ all kept rest,
      ({ patterns, condition := none, projection } : Query).run graph maxDepth = .ok all ∧
      ({ patterns, condition := some given, projection } : Query).run graph maxDepth = .ok kept ∧
      ({ patterns, condition := some given.not, projection } : Query).run graph maxDepth =
        .ok rest ∧
      all.Answers projection ∧ kept.Answers projection ∧ rest.Answers projection ∧
      Interleaves kept.rows rest.rows all.rows := by
  have bound := introduced.bindsUses graph maxDepth
  have negatedBound : BindsUses { patterns, condition := some given.not, projection } graph
      maxDepth := bound
  have plainBound : BindsUses { patterns, condition := none, projection } graph maxDepth :=
    fun bindings found identifier used =>
      bound bindings found identifier (List.mem_append_right _ used)
  obtain ⟨judgedNegated, interleaved⟩ := Evaluate.filter_not_interleaves judged
  obtain ⟨all, ranAll, answersAll, rowsAll⟩ :=
    answers_of_judged plainBound plain fun _ _ => ⟨true, rfl⟩
  obtain ⟨kept, ranKept, answersKept, rowsKept⟩ := answers_of_judged bound plain judged
  obtain ⟨rest, ranRest, answersRest, rowsRest⟩ :=
    answers_of_judged negatedBound plain judgedNegated
  refine ⟨all, kept, rest, ranAll, ranKept, ranRest, answersAll, answersKept, answersRest, ?_⟩
  have every : (Match.patterns graph maxDepth patterns).value.filter (Evaluate.passes none) =
      (Match.patterns graph maxDepth patterns).value := List.filter_eq_self.mpr fun _ _ => rfl
  rw [rowsAll, rowsKept, rowsRest, every]
  exact interleaved.map _

/-- A query with a condition refuses exactly when the query with the negated condition does, and
with the same report.  Otherwise each binding set is kept by one of the two, and the rows of the
query without a condition are made up of the rows of the two, in order. -/
theorem run_interleaves_of_not (graph : Snapshot) (maxDepth : Nat) (patterns : List Pattern)
    (given : Condition) (projection : Projection) (plain : projection.Plain)
    (introduced : UsesIntroduced { patterns, condition := some given, projection }) :
    let matched := (Match.patterns graph maxDepth patterns).value
    let answer (condition : Option Condition) :=
      ({ patterns, condition, projection } : Query).run graph maxDepth
    (∀ table, table.Refused →
      (answer (some given) = .ok table ↔ answer (some given.not) = .ok table)) ∧
    ((∀ table, answer (some given) = .ok table → ¬ table.Refused) →
      (∃ sets others, (Evaluate.filter (some given) matched).run.value = .ok sets ∧
        (Evaluate.filter (some given.not) matched).run.value = .ok others ∧
        Interleaves sets others matched) ∧
      ∃ all kept rest, answer none = .ok all ∧ answer (some given) = .ok kept ∧
        answer (some given.not) = .ok rest ∧ all.Answers projection ∧ kept.Answers projection ∧
        rest.Answers projection ∧ Interleaves kept.rows rest.rows all.rows) := by
  intro matched answer
  cases ended : (Evaluate.filter (some given) matched).run.value with
  | error error =>
      obtain ⟨table, refused, ran, ranNegated⟩ := run_not_of_failed introduced ended
      have same : answer (some given) = answer (some given.not) := ran.trans ranNegated.symm
      exact ⟨fun _ _ => by rw [same], fun answered => absurd refused (answered table ran)⟩
  | ok sets =>
      have judged := Evaluate.judged_of_filter ended
      obtain rfl := Except.ok.inj (ended.symm.trans (Evaluate.filter_of_ok judged))
      obtain ⟨judgedNegated, interleaved⟩ := Evaluate.filter_not_interleaves judged
      have answered := answers_interleave plain introduced judged
      refine ⟨fun table refused => ?_, fun _ =>
        ⟨⟨_, _, rfl, Evaluate.filter_of_ok judgedNegated, interleaved⟩, answered⟩⟩
      -- Neither of the two is a table that refuses.
      obtain ⟨_, kept, rest, _, ranKept, ranRest, _, answersKept, answersRest, _⟩ := answered
      constructor
      · intro ran
        obtain rfl := Except.ok.inj (ranKept.symm.trans ran)
        exact absurd answersKept refused.not_answers
      · intro ran
        obtain rfl := Except.ok.inj (ranRest.symm.trans ran)
        exact absurd answersRest refused.not_answers

/-- Two nodes with a rank, and one without between them. -/
def ranked : Snapshot :=
  Snapshot.ofLists
    [{ id := "a", properties := [("rank", .integer 1)] }, { id := "b" },
      { id := "c", properties := [("rank", .integer 3)] }] []

/-- `n.rank < 2` -/
def lowRank : Condition :=
  .comparison { owner := { name := "n", position := {} }, property := "rank" } .lessThan
    (.literal (.integer 2))

/-- `MATCH (n) RETURN n.id`, with a condition if there is one -/
def ranking (condition : Option Condition) : Query :=
  let n : Identifier := { name := "n", position := {} }
  { patterns := [{ start := { binder := n }, hops := [] }]
    condition
    projection := {
      distinct := false, items := [{ expression := .property { owner := n, property := "id" } }] } }

/-- A rank that is missing is not below 2. -/
theorem run_interleaves_of_not_ranked :
    (ranking none).projection.Plain ∧ (ranking (some lowRank)).UsesIntroduced ∧
    ∃ all kept rest, (ranking none).run ranked 1 = .ok all ∧
      (ranking (some lowRank)).run ranked 1 = .ok kept ∧
      (ranking (some lowRank.not)).run ranked 1 = .ok rest ∧
      Interleaves kept.rows rest.rows all.rows ∧ kept.rows = [[("n.id", .string "a")]] ∧
      rest.rows = [[("n.id", .string "b")], [("n.id", .string "c")]] := by
  have plain : (ranking none).projection.Plain := ⟨rfl, rfl⟩
  have introduced : (ranking (some lowRank)).UsesIntroduced := by
    intro identifier used
    have only : identifier = { name := "n", position := {} } := by
      simpa [uses, Condition.uses, lowRank, ranking, ReturnExpression.uses] using used
    subst only
    exact ⟨.node, List.mem_singleton.mpr rfl⟩
  obtain ⟨_, all, kept, rest, ranAll, ranKept, ranRest, _, _, _, interleaved⟩ :=
    (run_interleaves_of_not ranked 1 (ranking none).patterns lowRank (ranking none).projection
      plain introduced).2 fun table ran refused => by
        have columns : table.columns = ["n.id"] :=
          Except.ok.inj ((congrArg (Except.map Table.columns) ran).symm.trans rfl)
        exact List.cons_ne_nil _ _ (columns.symm.trans refused.columns)
  refine ⟨plain, introduced, all, kept, rest, ranAll, ranKept, ranRest, interleaved, ?_, ?_⟩
  · exact Except.ok.inj ((congrArg (Except.map Table.rows) ranKept).symm.trans rfl)
  · exact Except.ok.inj ((congrArg (Except.map Table.rows) ranRest).symm.trans rfl)

end Query

end DocumentGraph
