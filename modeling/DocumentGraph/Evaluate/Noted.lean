import DocumentGraph.Query.Error

namespace DocumentGraph

/-! Values that come with warnings.  The value of a sequence of steps does not depend on the
warnings (`value_bind`), which are those of the steps in order (`warnings_bind`). -/

/-- A value together with the warnings that arose on the way to it, in order. -/
structure Noted (α : Type) where
  value : α
  warnings : List Query.Diagnostic := []

namespace Noted

instance : Monad Noted where
  pure value := { value }
  bind step next :=
    let following := next step.value
    { value := following.value, warnings := step.warnings ++ following.warnings }

@[simp] theorem value_pure (value : α) : (pure value : Noted α).value = value := rfl

@[simp] theorem warnings_pure (value : α) : (pure value : Noted α).warnings = [] := rfl

@[simp] theorem value_bind (step : Noted α) (next : α → Noted β) :
    (step >>= next).value = (next step.value).value := rfl

@[simp] theorem warnings_bind (step : Noted α) (next : α → Noted β) :
    (step >>= next).warnings = step.warnings ++ (next step.value).warnings := rfl

@[simp] theorem value_map (f : α → β) (step : Noted α) : (f <$> step).value = f step.value := rfl

@[simp] theorem warnings_map (f : α → β) (step : Noted α) :
    (f <$> step).warnings = step.warnings := by
  simp [Functor.map]

instance : LawfulMonad Noted := LawfulMonad.mk' Noted
  (fun _ => by simp [Functor.map]) (fun _ _ => by simp [bind, pure]) (fun _ _ _ => by simp [bind])

/-- The results for all members of a list, one after the other. -/
def collect (values : List α) (find : α → Noted (List β)) : Noted (List β) :=
  match values with
  | [] => pure []
  | value :: rest => do
      let first ← find value
      let others ← collect rest find
      return first ++ others

@[simp] theorem value_collect (values : List α) (find : α → Noted (List β)) :
    (collect values find).value = values.flatMap fun value => (find value).value := by
  induction values with
  | nil => rfl
  | cons value rest ih => simp [collect, ih]

end Noted

/-- An evaluation, which leaves warnings behind and may fail. -/
abbrev Evaluation (α : Type) := ExceptT Query.QueryError Noted α

end DocumentGraph
