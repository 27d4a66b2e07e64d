import DocumentGraph.Evaluate.Noted
import Mathlib.Data.List.Basic

namespace DocumentGraph

open Query (Diagnostic QueryError)

/-! How evaluations end.

`Noted.Harmless` says that only warnings arise.  `Evaluation.Meets` adds what a value must be
and how an evaluation may fail; it follows the sequence of steps, so a function meets what its
steps meet.
-/

variable {α β : Type}

namespace Noted

/-- Nothing but warnings is noted. -/
def Harmless (noted : Noted α) : Prop :=
  ∀ diagnostic ∈ noted.warnings, diagnostic.code = .w001

theorem harmless_pure (value : α) : Harmless (pure value : Noted α) := by
  simp [Harmless]

theorem Harmless.bind {step : Noted α} {next : α → Noted β} (first : step.Harmless)
    (rest : (next step.value).Harmless) : (step >>= next).Harmless := by
  intro diagnostic member
  rw [warnings_bind, List.mem_append] at member
  rcases member with early | late
  · exact first diagnostic early
  · exact rest diagnostic late

@[simp] theorem warnings_collect (values : List α) (find : α → Noted (List β)) :
    (collect values find).warnings = values.flatMap fun value => (find value).warnings := by
  induction values with
  | nil => rfl
  | cons value rest ih => simp [collect, ih]

theorem harmless_collect {values : List α} {find : α → Noted (List β)}
    (each : ∀ value ∈ values, (find value).Harmless) : (collect values find).Harmless := by
  induction values with
  | nil => exact harmless_pure []
  | cons value rest ih =>
      refine (each value (by simp)).bind (Harmless.bind ?_ (harmless_pure _))
      exact ih fun other member => each other (by simp [member])

theorem harmless_foldlM {values : List α} {step : β → α → Noted β} {start : β}
    (each : ∀ found value, (step found value).Harmless) :
    (values.foldlM step start).Harmless := by
  induction values generalizing start with
  | nil => exact harmless_pure start
  | cons value rest ih =>
      rw [List.foldlM_cons]
      exact (each start value).bind ih

theorem foldlM_congr {values : List α} {step step' : β → α → Noted β}
    (same : ∀ value ∈ values, ∀ found, step found value = step' found value) (start : β) :
    values.foldlM step start = values.foldlM step' start := by
  induction values generalizing start with
  | nil => rfl
  | cons value rest ih =>
      obtain ⟨first, others⟩ := List.forall_mem_cons.mp same
      rw [List.foldlM_cons, List.foldlM_cons, first, funext (ih others)]

@[simp] theorem value_foldlM (values : List α) (step : β → α → Noted β) (start : β) :
    (values.foldlM step start).value =
      values.foldl (fun found value => (step found value).value) start := by
  induction values generalizing start with
  | nil => rfl
  | cons value rest ih => rw [List.foldlM_cons, value_bind, ih, List.foldl_cons]

end Noted

namespace Evaluation

/-- The outcome of a sequence is that of its steps, one after the other. -/
theorem value_run_bind (step : Evaluation α) (next : α → Evaluation β) :
    (step >>= next).run.value = step.run.value >>= fun value => (next value).run.value := by
  rw [ExceptT.run_bind, Noted.value_bind]
  cases step.run.value with
  | ok value => rfl
  | error error => rfl

/-- After a step that gives a value, its warnings come before those of the rest. -/
theorem run_bind_of_ok {step : Evaluation α} {next : α → Evaluation β} {value : α}
    (given : step.run.value = .ok value) :
    (step >>= next).run = {
      value := (next value).run.value
      warnings := step.run.warnings ++ (next value).run.warnings } := by
  rw [ExceptT.run_bind]
  change ({ value := _, warnings := _ } : Noted _) = _
  rw [given]

theorem run_lift (noted : Noted α) :
    (liftM noted : Evaluation α).run = { value := .ok noted.value, warnings := noted.warnings } :=
  congrArg (Noted.mk (Except.ok noted.value)) (List.append_nil _)

theorem value_run_map (f : α → β) (step : Evaluation α) :
    (f <$> step).run.value = step.run.value.map f := by
  rw [ExceptT.run_map]
  rfl

theorem warnings_run_map (f : α → β) (step : Evaluation α) :
    (f <$> step).run.warnings = step.run.warnings := by
  rw [ExceptT.run_map, Noted.warnings_map]

theorem mapM_map (f : α → Evaluation β) {γ : Type} (g : β → γ) (values : List α) :
    values.mapM (fun value => g <$> f value) = List.map g <$> values.mapM f := by
  induction values with
  | nil => simp
  | cons value rest ih => simp [List.mapM_cons, ih]

/-- A loop whose rounds all give a value gives the list of the values, and notes what its rounds
note. -/
theorem run_mapM {values : List α} {f : α → Evaluation β} {g : α → β}
    (each : ∀ value ∈ values, (f value).run.value = .ok (g value)) :
    (values.mapM f).run = {
      value := .ok (values.map g)
      warnings := values.flatMap fun value => (f value).run.warnings } := by
  induction values with
  | nil => rfl
  | cons value rest ih =>
      obtain ⟨first, others⟩ := List.forall_mem_cons.mp each
      rw [List.mapM_cons, run_bind_of_ok first, run_bind_of_ok (congrArg Noted.value (ih others)),
        ih others]
      simp

theorem length_of_mapM {f : α → Evaluation β} {values : List α} {results : List β}
    (given : (values.mapM f).run.value = .ok results) : results.length = values.length := by
  induction values generalizing results with
  | nil => exact Except.ok.inj given ▸ rfl
  | cons value rest ih =>
      rw [List.mapM_cons, value_run_bind] at given
      cases first : (f value).run.value with
      | error error =>
          rw [first] at given
          contradiction
      | ok result =>
          rw [first] at given
          have given : (rest.mapM f >>= fun others => pure (result :: others) :
            Evaluation (List β)).run.value = .ok results := given
          rw [value_run_bind] at given
          cases later : (rest.mapM f).run.value with
          | error error =>
              rw [later] at given
              contradiction
          | ok others =>
              rw [later] at given
              obtain rfl : result :: others = results := Except.ok.inj given
              rw [List.length_cons, List.length_cons, ih later]

/-- A loop that joins what its rounds give joins the values, and notes what its rounds note. -/
theorem run_foldlM {γ : Type} {values : List α} {f : α → Evaluation β} {g : α → β}
    (join : α → β → γ → γ) (each : ∀ value ∈ values, (f value).run.value = .ok (g value))
    (start : γ) :
    (values.foldlM (fun found value => do return join value (← f value) found) start).run = {
      value := .ok (values.foldl (fun found value => join value (g value) found) start)
      warnings := values.flatMap fun value => (f value).run.warnings } := by
  induction values generalizing start with
  | nil => rfl
  | cons value rest ih =>
      obtain ⟨first, others⟩ := List.forall_mem_cons.mp each
      have joined : (do return join value (← f value) start : Evaluation γ).run = {
          value := .ok (join value (g value) start), warnings := (f value).run.warnings } := by
        rw [run_bind_of_ok first]
        simp
      rw [List.foldlM_cons, run_bind_of_ok (congrArg Noted.value joined), joined, ih others]
      rfl

/-- The evaluation notes warnings only, fails in an allowed way only, and its value is as
wanted. -/
structure Meets (evaluation : Evaluation α) (allowed : QueryError → Prop) (wanted : α → Prop) :
    Prop where
  warnings : evaluation.run.Harmless
  outcome : match evaluation.run.value with
    | .ok value => wanted value
    | .error error => allowed error

variable {allowed : QueryError → Prop} {wanted : α → Prop}

theorem meets_pure {value : α} (holds : wanted value) :
    Meets (pure value) allowed wanted where
  warnings := Noted.harmless_pure _
  outcome := holds

theorem meets_lift {noted : Noted α} (harmless : noted.Harmless) (holds : wanted noted.value) :
    Meets (liftM noted) allowed wanted where
  warnings := by
    intro diagnostic member
    exact harmless diagnostic (by simpa using member)
  outcome := holds

theorem meets_except {outcome : Except QueryError α}
    (holds : match outcome with
      | .ok value => wanted value
      | .error error => allowed error) : Meets (liftM outcome) allowed wanted where
  warnings := Noted.harmless_pure _
  outcome := holds

theorem Meets.bind {step : Evaluation α} {next : α → Evaluation β} {wanted : α → Prop}
    {wanted' : β → Prop} (first : Meets step allowed wanted)
    (rest : ∀ value, wanted value → Meets (next value) allowed wanted') :
    Meets (step >>= next) allowed wanted' := by
  have ended := first.outcome
  cases result : step.run.value with
  | error error =>
      rw [result] at ended
      refine ⟨?_, ?_⟩
      · rw [ExceptT.run_bind]
        exact first.warnings.bind (by rw [result]; exact Noted.harmless_pure _)
      · rw [ExceptT.run_bind, Noted.value_bind, result]
        exact ended
  | ok value =>
      rw [result] at ended
      have later := rest value ended
      refine ⟨?_, ?_⟩
      · rw [ExceptT.run_bind]
        exact first.warnings.bind (by rw [result]; exact later.warnings)
      · rw [ExceptT.run_bind, Noted.value_bind, result]
        exact later.outcome

theorem Meets.weaken {evaluation : Evaluation α} {wanted wanted' : α → Prop}
    (met : Meets evaluation allowed wanted) (implies : ∀ value, wanted value → wanted' value) :
    Meets evaluation allowed wanted' where
  warnings := met.warnings
  outcome := by
    have ended := met.outcome
    split at ended
    · exact implies _ ended
    · exact ended

theorem meets_mapM {values : List α} {f : α → Evaluation β} {wanted : β → Prop}
    (each : ∀ value ∈ values, Meets (f value) allowed wanted) :
    Meets (values.mapM f) allowed (fun results => ∀ result ∈ results, wanted result) := by
  induction values with
  | nil => exact meets_pure (by simp)
  | cons value rest ih =>
      rw [List.mapM_cons]
      refine (each value (by simp)).bind fun first holds => ?_
      refine (ih fun other member => each other (by simp [member])).bind fun others rest => ?_
      exact meets_pure (by simpa using ⟨holds, rest⟩)

/-- An invariant of a loop over a list. -/
theorem meets_foldlM {values : List α} {step : β → α → Evaluation β} {invariant : β → Prop}
    {start : β} (begins : invariant start)
    (each : ∀ found, invariant found → ∀ value ∈ values,
      Meets (step found value) allowed invariant) :
    Meets (values.foldlM step start) allowed invariant := by
  induction values generalizing start with
  | nil => exact meets_pure begins
  | cons value rest ih =>
      rw [List.foldlM_cons]
      refine (each start begins value (by simp)).bind fun found holds => ?_
      exact ih holds fun found holds other member => each found holds other (by simp [member])

def Succeeds (evaluation : Evaluation α) : Prop :=
  ∃ value, evaluation.run.value = .ok value

/-- The value of an evaluation, or `fallback` if it fails. -/
def valueOr (fallback : α) (evaluation : Evaluation α) : α :=
  evaluation.run.value.toOption.getD fallback

theorem Succeeds.value_eq {evaluation : Evaluation α} (succeeds : evaluation.Succeeds)
    (fallback : α) : evaluation.run.value = .ok (evaluation.valueOr fallback) := by
  obtain ⟨value, given⟩ := succeeds
  simp [valueOr, given, Except.toOption]

/-- The rounds of a loop all give a value, or the loop fails in one and the same way whatever it
makes of the values. -/
theorem given_or_failed (f : α → Evaluation β) (fallback : β) (values : List α) :
    (∀ value ∈ values, (f value).run.value = .ok ((f value).valueOr fallback)) ∨
    ∃ error, (values.mapM f).run.value = .error error ∧
      ∀ {γ : Type} (join : α → β → γ → γ) (start : γ),
        (values.foldlM (fun found value => do return join value (← f value) found) start).run.value
          = .error error := by
  induction values with
  | nil => exact .inl fun _ member => absurd member List.not_mem_nil
  | cons value rest ih =>
      cases first : (f value).run.value with
      | error error =>
          refine .inr ⟨error, ?_, fun join start => ?_⟩
          · rw [List.mapM_cons, value_run_bind, first]
            rfl
          · rw [List.foldlM_cons, value_run_bind, value_run_bind, first]
            rfl
      | ok result =>
          rcases ih with given | ⟨error, failed, folded⟩
          · exact .inl (List.forall_mem_cons.mpr ⟨Succeeds.value_eq ⟨result, first⟩ fallback, given⟩)
          · refine .inr ⟨error, ?_, fun join start => ?_⟩
            · rw [List.mapM_cons, value_run_bind, first]
              exact (value_run_bind _ _).trans (by rw [failed]; rfl)
            · rw [List.foldlM_cons, value_run_bind, value_run_bind, first]
              exact folded join _

theorem valueOr_of_value {evaluation : Evaluation α} {fallback : α} (otherwise : wanted fallback)
    (given : ∀ value, evaluation.run.value = .ok value → wanted value) :
    wanted (evaluation.valueOr fallback) := by
  unfold valueOr
  cases result : evaluation.run.value with
  | ok value => exact given value result
  | error error => exact otherwise

theorem Meets.succeeds {evaluation : Evaluation α}
    (met : Meets evaluation (fun _ => False) wanted) : evaluation.Succeeds := by
  have ended := met.outcome
  cases result : evaluation.run.value with
  | ok value => exact ⟨value, result⟩
  | error error =>
      rw [result] at ended
      contradiction

end Evaluation

end DocumentGraph
