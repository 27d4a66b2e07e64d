import DocumentGraph.Evaluate.Run
import DocumentGraph.Proofs.Evaluate.Compare
import DocumentGraph.Proofs.Match.Scope
import DocumentGraph.Proofs.Ordered

namespace DocumentGraph

open Match (Bindings Element)
open Query (Aggregate AggregateArgument ComparisonOperator Condition Diagnostic Identifier Operand
  Projection PropertyAccess QueryError ReturnExpression ReturnItem Scope)

/-! How queries end.

An evaluation fails only where it meets an unbound variable or asks for the order of unordered
values.  A checked query binds every variable that it uses, so only the second is left, and
that one is reported inside the table.
-/

namespace Evaluate

variable {allowed : QueryError → Prop} {bindings : Bindings} {identifier : Identifier}

/-- Every identifier is bound, or failing at an unbound one is allowed. -/
def Admits (allowed : QueryError → Prop) (bindings : Bindings)
    (identifiers : List Identifier) : Prop :=
  ∀ identifier ∈ identifiers, (bindings.element? identifier).isSome ∨
    ∀ reason position, allowed (.invalidPropertyAccess reason position)

theorem Admits.of_subset {identifiers others : List Identifier}
    (admitted : Admits allowed bindings identifiers) (subset : others ⊆ identifiers) :
    Admits allowed bindings others :=
  fun identifier member => admitted identifier (subset member)

theorem meets_element (admitted : Admits allowed bindings [identifier]) (context : String) :
    Evaluation.Meets (liftM (element bindings identifier context)) allowed (fun _ => True) := by
  apply Evaluation.meets_except
  unfold element
  cases found : bindings.element? identifier with
  | some element => trivial
  | none =>
      rcases admitted identifier (by simp) with bound | tolerated
      · simp [found] at bound
      · exact tolerated _ _

theorem meets_property {access : PropertyAccess}
    (admitted : Admits allowed bindings [access.owner]) :
    Evaluation.Meets (property bindings access) allowed (fun _ => True) := by
  refine (meets_element admitted access.spelling).bind fun element _ => ?_
  cases element with
  | node node => exact Evaluation.meets_lift (Match.harmless_property node _) trivial
  | edge edge => exact Evaluation.meets_pure trivial

theorem meets_variableValue (admitted : Admits allowed bindings [identifier]) :
    Evaluation.Meets (variableValue bindings identifier) allowed (fun _ => True) := by
  refine (meets_element admitted identifier.name).bind fun element _ => ?_
  cases element with
  | node node => exact Evaluation.meets_pure trivial
  | edge edge => exact Evaluation.meets_pure trivial

theorem meets_apply (mismatch : ∀ operator left right, allowed (.typeMismatch operator left right))
    (operator : ComparisonOperator) (left right : Value) :
    Evaluation.Meets (liftM (operator.apply left right)) allowed (fun _ => True) := by
  apply Evaluation.meets_except
  cases outcome : operator.apply left right with
  | ok holds => trivial
  | error error =>
      rw [(ComparisonOperator.apply_eq_error_iff.mp outcome).2]
      exact mismatch _ _ _

theorem meets_condition
    (mismatch : ∀ operator left right, allowed (.typeMismatch operator left right))
    {given : Condition} (admitted : Admits allowed bindings given.uses) :
    Evaluation.Meets (condition bindings given) allowed (fun _ => True) := by
  induction given with
  | comparison left operator right =>
      have owner : Admits allowed bindings [left.owner] := admitted.of_subset (by
        cases right <;> simp [Condition.uses])
      refine (meets_property owner).bind fun leftValue _ => ?_
      have rightMeets : Evaluation.Meets (operand bindings right) allowed (fun _ => True) := by
        cases right with
        | property access =>
            exact meets_property (admitted.of_subset (by simp [Condition.uses]))
        | literal literal => exact Evaluation.meets_pure trivial
      exact rightMeets.bind fun rightValue _ => meets_apply mismatch operator leftValue rightValue
  | nullCheck access negated =>
      exact (meets_property admitted).bind fun value _ => Evaluation.meets_pure trivial
  | not inner ih => exact (ih admitted).bind fun holds _ => Evaluation.meets_pure trivial
  | and left right leftIH rightIH =>
      refine (leftIH (admitted.of_subset (by simp [Condition.uses]))).bind fun holds _ => ?_
      split
      · exact rightIH (admitted.of_subset (by simp [Condition.uses]))
      · exact Evaluation.meets_pure trivial
  | or left right leftIH rightIH =>
      refine (leftIH (admitted.of_subset (by simp [Condition.uses]))).bind fun holds _ => ?_
      split
      · exact Evaluation.meets_pure trivial
      · exact rightIH (admitted.of_subset (by simp [Condition.uses]))

theorem meets_filter
    (mismatch : ∀ operator left right, allowed (.typeMismatch operator left right))
    {condition? : Option Condition} {sets : List Bindings}
    (admitted : ∀ bindings ∈ sets,
      Admits allowed bindings ((condition?.map Condition.uses).getD [])) :
    Evaluation.Meets (filter condition? sets) allowed (fun kept => kept ⊆ sets) := by
  unfold filter
  cases condition? with
  | none => exact Evaluation.meets_pure (List.Subset.refl sets)
  | some given =>
      induction sets with
      | nil => exact Evaluation.meets_pure (List.Subset.refl [])
      | cons bindings rest ih =>
          have here := meets_condition mismatch (admitted bindings (by simp))
          refine here.bind fun holds _ => ?_
          refine (ih fun other member => admitted other (by simp [member])).bind fun others kept => ?_
          apply Evaluation.meets_pure
          split
          · exact List.cons_subset_cons bindings kept
          · exact List.Subset.trans kept (List.subset_cons_self bindings rest)

def names (items : List ReturnItem) : List String :=
  items.map ReturnItem.columnName

theorem meets_itemValue {expression : ReturnExpression}
    (admitted : Admits allowed bindings expression.uses) :
    Evaluation.Meets (itemValue bindings expression) allowed (fun _ => True) := by
  cases expression with
  | property access => exact meets_property admitted
  | element identifier => exact meets_variableValue admitted
  | aggregate aggregate => exact Evaluation.meets_pure trivial

theorem keys_put {row : Row} {done : List String} (keys : row.map Prod.fst = done.eraseDups)
    (column : String) (value : Value) :
    (row.put column value).map Prod.fst = (done ++ [column]).eraseDups :=
  Ordered.keys_put_eq_eraseDups keys column value

theorem meets_plainRow {items : List ReturnItem}
    (admitted : ∀ item ∈ items, Admits allowed bindings item.expression.uses) :
    Evaluation.Meets (plainRow items bindings) allowed
      (fun row => row.map Prod.fst = (names items).eraseDups) := by
  -- The row holds the columns of the items before those still to come.
  suffices general : ∀ (done : List String) (row : Row), row.map Prod.fst = done.eraseDups →
      Evaluation.Meets
        (items.foldlM (fun (row : Row) (item : ReturnItem) => do
          return row.put item.columnName (← itemValue bindings item.expression)) row)
        allowed (fun row => row.map Prod.fst = (done ++ names items).eraseDups) from
    general [] [] rfl
  induction items with
  | nil =>
      intro done row keys
      exact Evaluation.meets_pure (by simpa [names] using keys)
  | cons item rest ih =>
      intro done row keys
      rw [List.foldlM_cons]
      have filled : Evaluation.Meets
          (do return row.put item.columnName (← itemValue bindings item.expression)) allowed
          (fun row => row.map Prod.fst = (done ++ [item.columnName]).eraseDups) :=
        (meets_itemValue (admitted item (by simp))).bind fun value _ =>
          Evaluation.meets_pure (keys_put keys item.columnName value)
      refine filled.bind fun next keys => ?_
      have later := ih (fun other member => admitted other (by simp [member]))
        (done ++ [item.columnName]) next keys
      simpa [names] using later

theorem members_joinGroup {key : List Value} {member : Bindings} {groups : List Group}
    {sets : List Bindings} (within : ∀ group ∈ groups, group.members ⊆ sets)
    (new : member ∈ sets) : ∀ group ∈ joinGroup key member groups, group.members ⊆ sets := by
  induction groups with
  | nil =>
      intro group found
      rw [joinGroup, List.mem_singleton] at found
      subst found
      simpa using new
  | cons first rest ih =>
      have restWithin := ih fun group found => within group (by simp [found])
      intro group found
      rw [joinGroup] at found
      split at found
      · rcases List.mem_cons.mp found with rfl | later
        · exact List.append_subset.mpr ⟨within first (by simp), by simpa using new⟩
        · exact within group (by simp [later])
      · rcases List.mem_cons.mp found with rfl | later
        · exact within group (by simp)
        · exact restWithin group later

theorem meets_groups {items : List ReturnItem} {sets : List Bindings}
    (admitted : ∀ bindings ∈ sets, ∀ item ∈ items, Admits allowed bindings item.expression.uses) :
    Evaluation.Meets (groups items sets) allowed
      (fun found => ∀ group ∈ found, group.members ⊆ sets) := by
  have joined : Evaluation.Meets
      (sets.foldlM (fun found bindings => do
        return joinGroup (← groupKey items bindings) bindings found) [])
      allowed (fun found => ∀ group ∈ found, group.members ⊆ sets) := by
    refine Evaluation.meets_foldlM (by simp) fun found within bindings member => ?_
    have key : Evaluation.Meets (groupKey items bindings) allowed (fun _ => ∀ _ ∈ _, True) :=
      Evaluation.meets_mapM fun item chosen =>
        meets_itemValue (admitted bindings member item (List.mem_of_mem_filter chosen))
    exact key.bind fun key _ => Evaluation.meets_pure (members_joinGroup within member)
  refine joined.bind fun found within => ?_
  split
  · exact Evaluation.meets_pure (by simp)
  · exact Evaluation.meets_pure within

theorem meets_argumentValue {argument : AggregateArgument}
    (admitted : Admits allowed bindings argument.uses) :
    Evaluation.Meets (argumentValue bindings argument) allowed (fun _ => True) := by
  cases argument with
  | star => exact Evaluation.meets_pure trivial
  | property access => exact meets_property admitted
  | element identifier => exact meets_variableValue admitted

theorem meets_aggregateValue {members : List Bindings} {aggregate : Aggregate}
    (admitted : ∀ bindings ∈ members, Admits allowed bindings aggregate.argument.uses) :
    Evaluation.Meets (aggregateValue members aggregate) allowed (fun _ => True) := by
  unfold aggregateValue
  split
  · exact Evaluation.meets_pure trivial
  · exact (Evaluation.meets_mapM fun bindings member =>
      meets_argumentValue (admitted bindings member)).bind fun found _ =>
        Evaluation.meets_pure trivial

theorem meets_fillGroupRow {members : List Bindings} {items : List ReturnItem}
    (admitted : ∀ bindings ∈ members, ∀ item ∈ items,
      Admits allowed bindings item.expression.uses)
    {key : List Value} {row : Row} {done : List String} (keys : row.map Prod.fst = done.eraseDups) :
    Evaluation.Meets (fillGroupRow members items key row) allowed
      (fun row => row.map Prod.fst = (done ++ names items).eraseDups) := by
  induction items generalizing key row done with
  | nil => exact Evaluation.meets_pure (by simpa [names] using keys)
  | cons item rest ih =>
      have later : ∀ value key, Evaluation.Meets
          (fillGroupRow members rest key (row.put item.columnName value)) allowed
          (fun row => row.map Prod.fst = (done ++ names (item :: rest)).eraseDups) := by
        intro value key
        rw [show done ++ names (item :: rest) = (done ++ [item.columnName]) ++ names rest by
          simp [names]]
        exact ih (fun bindings member other found =>
          admitted bindings member other (by simp [found])) (keys_put keys item.columnName value)
      rw [fillGroupRow]
      split
      · rename_i aggregate written
        refine (meets_aggregateValue fun bindings member => ?_).bind fun value _ => later value key
        have here := admitted bindings member item (by simp)
        rwa [written] at here
      · exact later _ _

theorem meets_groupRow {items : List ReturnItem} {group : Group}
    (admitted : ∀ bindings ∈ group.members, ∀ item ∈ items,
      Admits allowed bindings item.expression.uses) :
    Evaluation.Meets (groupRow items group) allowed
      (fun row => row.map Prod.fst = (names items).eraseDups) := by
  have empty : ([] : Row).map Prod.fst = ([] : List String).eraseDups := rfl
  exact meets_fillGroupRow admitted empty

theorem meets_rows {projection : Projection} {sets : List Bindings}
    (admitted : ∀ bindings ∈ sets, ∀ item ∈ projection.items,
      Admits allowed bindings item.expression.uses) :
    Evaluation.Meets (rows projection sets) allowed
      (fun found => ∀ row ∈ found, row.map Prod.fst = (names projection.items).eraseDups) := by
  unfold rows
  split
  · refine (meets_groups admitted).bind fun found within => ?_
    refine Evaluation.meets_mapM fun group member => ?_
    exact meets_groupRow fun bindings joined => admitted bindings (within group member joined)
  · exact Evaluation.meets_mapM fun bindings member => meets_plainRow (admitted bindings member)

theorem meets_project {projection : Projection} {sets : List Bindings}
    (admitted : ∀ bindings ∈ sets, ∀ item ∈ projection.items,
      Admits allowed bindings item.expression.uses) :
    Evaluation.Meets (project projection sets) allowed
      (fun found => ∀ row ∈ found, row.map Prod.fst = (names projection.items).eraseDups) := by
  refine (meets_rows admitted).bind fun found keys => Evaluation.meets_pure ?_
  split
  · exact fun row member => keys row ((Ordered.distinctBy_sublist Row.same found).subset member)
  · exact keys

end Evaluate

end DocumentGraph
