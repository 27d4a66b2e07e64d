import DocumentGraph.Proofs.Evaluate.Grouping
import DocumentGraph.Proofs.Match.Complete

namespace DocumentGraph

open Match (Bindings Element)
open Query (Aggregate AggregateArgument Hop Identifier Pattern Projection PropertyAccess
  ReturnExpression ReturnItem Scope)

/-! What a query shows of a graph.

The variables of a match stand for nodes and edges of the graph.  So the values of items and of
arguments are values that the graph shows, and so are those of all rows, unless COLLECT makes lists
of them.
-/

namespace Match

variable {graph : Graph} {maxDepth : Nat} {name : String} {element : Element}

def Element.Stored (graph : Graph) : Element → Prop
  | node stored => stored ∈ graph.nodes.toList
  | edge stored => stored ∈ graph.edges.toList

theorem stored_of_named {binder : Option Identifier} {bound : Element} (stored : bound.Stored graph)
    (paired : (name, element) ∈ named binder bound) : element.Stored graph := by
  obtain ⟨_, _, equal⟩ := List.mem_map.mp paired
  exact (Prod.mk.inj equal).2 ▸ stored

theorem FitsHop.stored {source : Node} {hop : Hop} {choice : HopChoice}
    (fits : FitsHop graph maxDepth source hop choice) (paired : (name, element) ∈ choice.bound hop) :
    element.Stored graph := by
  rcases List.mem_append.mp paired with crossed | reached
  · obtain ⟨last, final, inside⟩ := List.mem_flatMap.mp crossed
    have edge : Element.Stored graph (.edge last.edge) :=
      fits.leads.stored last (List.mem_of_getLast? (Option.mem_toList.mp final))
    exact stored_of_named edge inside
  · have node : Element.Stored graph (.node choice.node) := fits.leads.node
    exact stored_of_named node reached

theorem FitsHops.stored {source : Node} {hops : List Hop} {choices : List HopChoice}
    (fits : FitsHops graph maxDepth source hops choices)
    (paired : (name, element) ∈ boundByHops hops choices) : element.Stored graph := by
  induction hops generalizing source choices with
  | nil => contradiction
  | cons hop hops ih =>
      cases choices with
      | nil => contradiction
      | cons choice choices =>
          obtain ⟨first, others⟩ := fits
          rcases List.mem_append.mp paired with here | later
          · exact first.stored here
          · exact ih others later

theorem stored_of_mem_bound {patterns : List Pattern} {choices : List PatternChoice}
    (fits : List.Forall₂ (FitsPattern graph maxDepth) patterns choices)
    (paired : (name, element) ∈ bound patterns choices) : element.Stored graph := by
  induction fits with
  | nil => contradiction
  | @cons pattern choice patterns choices first _ ih =>
      rcases List.mem_append.mp paired with here | later
      · rcases List.mem_append.mp here with start | hops
        · have node : Element.Stored graph (.node choice.start) := first.start
          exact stored_of_named node start
        · exact FitsHops.stored first.hops hops
      · exact ih later

/-- The variables stand for elements of the graph. -/
def Bindings.Stored (graph : Graph) (bindings : Bindings) : Prop :=
  ∀ name element, bindings.lookup name = some element → element.Stored graph

theorem stored_of_found (indexed : graph.Indexed) {patterns : List Pattern} {last : Scope}
    (accepted : Scope.ofPatterns patterns = .ok last) :
    ∀ bindings ∈ (Match.patterns graph.snapshot maxDepth patterns).value,
      Bindings.Stored graph bindings := by
  intro found member name element known
  obtain ⟨choices, matched, rfl⟩ := (patterns_enumerate maxDepth indexed accepted).exists_of_mem member
  rcases lookup_store_cases known with paired | impossible
  · exact stored_of_mem_bound matched.fits paired
  · contradiction

end Match

namespace Evaluate

variable {graph : Graph} {bindings : Bindings} {value : Value} {items : List ReturnItem}
  {projection : Projection} {sets : List Bindings}

theorem stored_of_element {identifier : Identifier} {context : String} {found : Element}
    (stored : bindings.Stored graph) (given : element bindings identifier context = .ok found) :
    found.Stored graph := by
  unfold element at given
  cases known : bindings.element? identifier with
  | none => simp [known] at given
  | some existing =>
      rw [known] at given
      exact Except.ok.inj given ▸ stored identifier.name existing known

/-- What is read of the element behind a variable is what one step makes of an element. -/
theorem shown_of_element {identifier : Identifier} {context : String}
    {step : Element → Evaluation Value} (stored : bindings.Stored graph)
    (each : ∀ found : Element, found.Stored graph → ∃ value, (step found).run.value = .ok value ∧
      value.Shown graph)
    (given : (liftM (element bindings identifier context) >>= step : Evaluation Value).run.value =
      .ok value) :
    value.Shown graph := by
  have looked : (liftM (element bindings identifier context) : Evaluation Element).run.value =
      element bindings identifier context := rfl
  rw [Evaluation.value_run_bind, looked] at given
  cases found : element bindings identifier context with
  | error error =>
      rw [found] at given
      contradiction
  | ok known =>
      obtain ⟨made, gives, shown⟩ := each known (stored_of_element stored found)
      rw [found] at given
      exact Except.ok.inj (gives.symm.trans given) ▸ shown

theorem shown_property {access : PropertyAccess} (stored : bindings.Stored graph)
    (given : (property bindings access).run.value = .ok value) : value.Shown graph := by
  refine shown_of_element stored (fun found _ => ?_) given
  cases found with
  | node node => exact ⟨_, rfl, .flat (node.flat_property access.property)⟩
  | edge edge => exact ⟨_, rfl, .flat (edge.flat_property access.property)⟩

theorem shown_variableValue {identifier : Identifier} (stored : bindings.Stored graph)
    (given : (variableValue bindings identifier).run.value = .ok value) : value.Shown graph := by
  refine shown_of_element stored (fun found inside => ?_) given
  cases found with
  | node node => exact ⟨_, rfl, .node inside⟩
  | edge edge => exact ⟨_, rfl, .edge inside⟩

theorem shown_null : Value.Shown graph .null := .flat trivial

theorem shown_itemOf (stored : bindings.Stored graph) (item : ReturnItem) :
    (itemOf bindings item).Shown graph := by
  refine Evaluation.valueOr_of_value shown_null fun value given => ?_
  cases written : item.expression with
  | property access => exact shown_property stored (written ▸ given)
  | element identifier => exact shown_variableValue stored (written ▸ given)
  | aggregate aggregate =>
      rw [written] at given
      exact Except.ok.inj given ▸ shown_null

/-- The value of an argument, or NULL where it fails. -/
def argumentOf (argument : AggregateArgument) (bindings : Bindings) : Value :=
  (argumentValue bindings argument).valueOr .null

theorem shown_argumentOf (stored : bindings.Stored graph) (argument : AggregateArgument) :
    (argumentOf argument bindings).Shown graph := by
  refine Evaluation.valueOr_of_value shown_null fun value given => ?_
  cases argument with
  | star => exact Except.ok.inj given ▸ shown_null
  | property access => exact shown_property stored given
  | element identifier => exact shown_variableValue stored given

theorem shown_groupingKey (stored : bindings.Stored graph) :
    ∀ value ∈ groupingKey items bindings, value.Shown graph := by
  intro value member
  obtain ⟨item, _, rfl⟩ := List.mem_map.mp member
  exact shown_itemOf stored item

theorem shown_put {row : Row} (shown : row.Shown graph) (column : String) (cell : value.Shown graph) :
    (row.put column value).Shown graph := by
  intro found member
  rcases Ordered.mem_put member with rfl | before
  · exact cell
  · exact shown found before

theorem shown_rowOf (bound : BindsItems items bindings) (stored : bindings.Stored graph) :
    (rowOf items bindings).Shown graph := by
  rw [rowOf_eq_foldl bound]
  suffices general : ∀ row : Row, row.Shown graph →
      (items.foldl (fun (row : Row) item => row.put item.columnName (itemOf bindings item))
        row).Shown graph from general [] fun _ member => absurd member List.not_mem_nil
  clear bound
  induction items with
  | nil => exact fun row shown => shown
  | cons item rest ih =>
      exact fun row shown => ih _ (shown_put shown item.columnName (shown_itemOf stored item))

/-- No item collects. -/
def Uncollected (items : List ReturnItem) : Prop :=
  ∀ item ∈ items, ∀ aggregate, item.expression = .aggregate aggregate → aggregate.function ≠ .collect

theorem flat_aggregateValue {members : List Bindings} {aggregate : Aggregate}
    (counts : aggregate.function ≠ .collect)
    (given : (aggregateValue members aggregate).run.value = .ok value) : value.Flat := by
  have counted (values : List Value) : (combine aggregate values).Flat := by
    unfold combine
    cases written : aggregate.function with
    | count => trivial
    | collect => contradiction
  unfold aggregateValue at given
  split at given
  · exact Except.ok.inj given ▸ trivial
  · rw [Evaluation.value_run_bind] at given
    cases found : (members.mapM fun bindings =>
        argumentValue bindings aggregate.argument).run.value with
    | error error =>
        rw [found] at given
        contradiction
    | ok values =>
        rw [found] at given
        exact Except.ok.inj given ▸ counted values

theorem shown_fillGroupRow {members : List Bindings} (uncollected : Uncollected items)
    {key : List Value} (keyShown : ∀ value ∈ key, value.Shown graph) {row filled : Row}
    (shown : row.Shown graph)
    (given : (fillGroupRow members items key row).run.value = .ok filled) : filled.Shown graph := by
  induction items generalizing key row with
  | nil => exact Except.ok.inj given ▸ shown
  | cons item rest ih =>
      obtain ⟨here, others⟩ := List.forall_mem_cons.mp uncollected
      rw [fillGroupRow] at given
      split at given
      · rename_i aggregate written
        rw [Evaluation.value_run_bind] at given
        cases counted : (aggregateValue members aggregate).run.value with
        | error error =>
            rw [counted] at given
            contradiction
        | ok value =>
            rw [counted] at given
            have flat := flat_aggregateValue (here aggregate written) counted
            exact ih others keyShown (shown_put shown item.columnName (.flat flat)) given
      · have cell : (key.headD .null).Shown graph := by
          cases key with
          | nil => exact shown_null
          | cons first later => exact keyShown first List.mem_cons_self
        exact ih others (fun value member => keyShown value (List.mem_of_mem_tail member))
          (shown_put shown item.columnName cell) given

end Evaluate

end DocumentGraph
