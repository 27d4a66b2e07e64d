import DocumentGraph.Proofs.Match.HopSearch
import Mathlib.Data.Finset.Card
import Mathlib.Data.List.Lex

namespace DocumentGraph

open Match (Trail)
open Query (RelationshipPattern)

/-! The routes from a node.

A route crosses candidate edges one after the other and comes to no node twice.  It is told from
other routes by the places of its edges among the candidates, so parallel and repeated edges make
routes of their own.  On a snapshot that answers an id with a node of that id, the trails of one
length are the routes of that length, in the lexicographic order of their places; and there are none
as long as the number of ids.
-/

/-- The node that a snapshot gives for an id has that id. -/
def Snapshot.Faithful (graph : Snapshot) : Prop :=
  ∀ id node, graph.node? id = some node → node.id = id

theorem Snapshot.faithful_ofLists (nodes : List Node) (edges : List Edge) :
    (Snapshot.ofLists nodes edges).Faithful :=
  fun _ _ found => by simpa using List.find?_some found

theorem Snapshot.answered_ofLists {nodes : List Node} {edges : List Edge} {id : String}
    (answered : ((Snapshot.ofLists nodes edges).node? id).isSome) :
    id ∈ (nodes.map Node.id).toFinset := by
  obtain ⟨node, found⟩ := Option.isSome_iff_exists.mp answered
  rw [← Snapshot.faithful_ofLists nodes edges id node found, List.mem_toFinset]
  exact List.mem_map_of_mem (List.mem_of_find?_eq_some found)

namespace Match

variable {graph : Snapshot} {relationship : RelationshipPattern} {source node : Node}
  {length : Nat}

/-- A step, and the place of its edge among the candidate edges of the node before it. -/
structure PlacedStep extends Step where
  place : Nat

abbrev Route := List PlacedStep

namespace Route

/-- The node at the end of a route. -/
def last (source : Node) (route : Route) : Node :=
  (route.getLast?.map fun step => step.node).getD source

/-- The ids that a route comes to, that of its source included. -/
def ids (source : Node) (route : Route) : List String :=
  source.id :: route.map fun step => step.node.id

def places (route : Route) : List Nat :=
  route.map PlacedStep.place

def trail (source : Node) (route : Route) : Trail where
  node := route.last source
  visited := (route.ids source).reverse
  edges := (route.map fun step => step.edge).reverse

end Route

/-- The step crosses the candidate edge at its place, which is as the relationship asks for, to the
node that the edge leads to. -/
structure PlacedStep.Leaves (graph : Snapshot) (relationship : RelationshipPattern) (node : Node)
    (step : PlacedStep) : Prop where
  candidate : (incident graph node.id relationship.direction)[step.place]? = some step.edge
  typed : ∀ type ∈ relationship.type, step.edge.type = type.name
  reached : graph.node? (farEnd step.edge node.id) = some step.node

/-- Every step leaves the node that the step before it reached. -/
def Connected (graph : Snapshot) (relationship : RelationshipPattern) : Node → Route → Prop
  | _, [] => True
  | node, step :: route =>
      step.Leaves graph relationship node ∧ Connected graph relationship step.node route

structure SimpleRoute (graph : Snapshot) (relationship : RelationshipPattern) (source : Node)
    (length : Nat) (route : Route) : Prop where
  connected : Connected graph relationship source route
  length : route.length = length
  simple : (route.ids source).Nodup

@[simp] theorem Route.last_nil : Route.last source [] = source := rfl

@[simp] theorem Route.last_concat (route : Route) (step : PlacedStep) :
    Route.last source (route ++ [step]) = step.node := by
  simp [Route.last]

theorem Route.last_cons (step : PlacedStep) (route : Route) :
    Route.last source (step :: route) = Route.last step.node route := by
  rcases List.eq_nil_or_concat' route with rfl | ⟨earlier, final, rfl⟩
  · rfl
  · rw [← List.cons_append, last_concat, last_concat]

@[simp] theorem Route.ids_concat (route : Route) (step : PlacedStep) :
    Route.ids source (route ++ [step]) = route.ids source ++ [step.node.id] := by
  simp [Route.ids]

theorem connected_concat_iff {route : Route} {step : PlacedStep} :
    Connected graph relationship source (route ++ [step]) ↔
      Connected graph relationship source route ∧
        step.Leaves graph relationship (route.last source) := by
  induction route generalizing source with
  | nil => simp [Connected]
  | cons first rest ih => simp [Connected, ih, Route.last_cons, and_assoc]

theorem simpleRoute_succ_iff {route : Route} :
    SimpleRoute graph relationship source (length + 1) route ↔
      ∃ before step, SimpleRoute graph relationship source length before ∧
        step.Leaves graph relationship (before.last source) ∧
        step.node.id ∉ before.ids source ∧ before ++ [step] = route := by
  constructor
  · intro found
    obtain ⟨connected, counted, simple⟩ := found
    rcases List.eq_nil_or_concat' route with rfl | ⟨before, step, rfl⟩
    · simp at counted
    · obtain ⟨earlier, leaves⟩ := connected_concat_iff.mp connected
      rw [Route.ids_concat, List.nodup_append_comm] at simple
      obtain ⟨fresh, simple⟩ := List.nodup_cons.mp simple
      exact ⟨before, step, ⟨earlier, by simpa using counted, simple⟩, leaves, fresh, rfl⟩
  · intro grown
    obtain ⟨before, step, ⟨connected, counted, simple⟩, leaves, fresh, rfl⟩ := grown
    refine ⟨connected_concat_iff.mpr ⟨connected, leaves⟩, by simp [counted], ?_⟩
    rw [Route.ids_concat, List.nodup_append_comm]
    exact List.nodup_cons.mpr ⟨fresh, simple⟩

/-- The step over a candidate edge at some place, if the edge makes one. -/
def placed? (graph : Snapshot) (relationship : RelationshipPattern) (node : Node)
    (candidate : Edge × Nat) : Option PlacedStep :=
  if admits relationship candidate.1 then
    (graph.node? (farEnd candidate.1 node.id)).map fun next =>
      { edge := candidate.1, node := next, place := candidate.2 }
  else none

def placedSteps (graph : Snapshot) (relationship : RelationshipPattern) (node : Node) :
    List PlacedStep :=
  (incident graph node.id relationship.direction).zipIdx.filterMap (placed? graph relationship node)

/-- The routes of one length: a route goes on by a step to a node that it has not come to. -/
def routes (graph : Snapshot) (relationship : RelationshipPattern) (source : Node) :
    Nat → List Route
  | 0 => [[]]
  | length + 1 => (routes graph relationship source length).flatMap fun route =>
      ((placedSteps graph relationship (route.last source)).filter fun step =>
        step.node.id ∉ route.ids source).map fun step => route ++ [step]

theorem placed?_eq_some_iff {candidate : Edge × Nat} {step : PlacedStep} :
    placed? graph relationship node candidate = some step ↔
      candidate = (step.edge, step.place) ∧ admits relationship step.edge = true ∧
        graph.node? (farEnd step.edge node.id) = some step.node := by
  unfold placed?
  constructor
  · intro taken
    split at taken
    · rename_i admitted
      obtain ⟨next, reached, rfl⟩ := Option.map_eq_some_iff.mp taken
      exact ⟨rfl, admitted, reached⟩
    · contradiction
  · intro found
    obtain ⟨rfl, admitted, reached⟩ := found
    rw [if_pos admitted, reached]
    rfl

theorem mem_placedSteps {step : PlacedStep} :
    step ∈ placedSteps graph relationship node ↔ step.Leaves graph relationship node := by
  rw [placedSteps, List.mem_filterMap]
  constructor
  · intro found
    obtain ⟨candidate, member, taken⟩ := found
    obtain ⟨rfl, admitted, reached⟩ := placed?_eq_some_iff.mp taken
    exact ⟨List.mk_mem_zipIdx_iff_getElem?.mp member, admits_iff.mp admitted, reached⟩
  · intro leaves
    exact ⟨(step.edge, step.place), List.mk_mem_zipIdx_iff_getElem?.mpr leaves.candidate,
      placed?_eq_some_iff.mpr ⟨rfl, admits_iff.mpr leaves.typed, leaves.reached⟩⟩

theorem placedSteps_pairwise :
    (placedSteps graph relationship node).Pairwise fun early late => early.place < late.place := by
  have places : (incident graph node.id relationship.direction).zipIdx.Pairwise
      fun early late => early.2 < late.2 := by
    rw [← List.pairwise_map (f := Prod.snd), List.zipIdx_map_snd]
    exact List.pairwise_lt_range' 1
  refine places.filterMap _ fun early late before first taken second taken' => ?_
  obtain ⟨rfl, _⟩ := placed?_eq_some_iff.mp taken
  obtain ⟨rfl, _⟩ := placed?_eq_some_iff.mp taken'
  exact before

theorem map_placedSteps :
    (placedSteps graph relationship node).map PlacedStep.toStep =
      steps graph relationship node := by
  rw [steps, ← List.zipIdx_map_fst 0 (incident graph node.id relationship.direction),
    List.filterMap_map, placedSteps, List.map_filterMap]
  refine List.filterMap_congr fun candidate _ => ?_
  rw [placed?, Function.comp]
  split
  · rw [Option.map_map]
    rfl
  · rfl

theorem mem_routes {route : Route} :
    route ∈ routes graph relationship source length ↔
      SimpleRoute graph relationship source length route := by
  induction length generalizing route with
  | zero =>
      rw [routes, List.mem_singleton]
      constructor
      · intro same
        subst same
        exact ⟨trivial, rfl, List.nodup_singleton _⟩
      · exact fun found => List.length_eq_zero_iff.mp found.length
  | succ length ih =>
      rw [simpleRoute_succ_iff, routes]
      simp only [List.mem_flatMap, List.mem_map, List.mem_filter, decide_eq_true_eq, ih,
        mem_placedSteps, and_assoc, exists_and_left]

theorem lex_append {early late : List Nat} (before : List.Lex (· < ·) early late)
    (same : early.length = late.length) (left right : List Nat) :
    List.Lex (· < ·) (early ++ left) (late ++ right) := by
  induction before with
  | nil => contradiction
  | cons _ ih => exact .cons (ih (Nat.succ.inj same))
  | rel less => exact .rel less

/-- The routes come in the lexicographic order of their places, so each of them comes once. -/
theorem routes_pairwise (length : Nat) :
    (routes graph relationship source length).Pairwise fun early late =>
      List.Lex (· < ·) early.places late.places := by
  induction length with
  | zero => exact List.pairwise_singleton _ _
  | succ length ih =>
      rw [routes, List.pairwise_flatMap]
      constructor
      · intro route _
        rw [List.pairwise_map]
        refine (placedSteps_pairwise.filter _).imp fun {early late} less => ?_
        rw [Route.places, Route.places, List.map_append, List.map_append]
        exact List.Lex.append_left _ (.rel less) _
      · refine ih.imp_of_mem fun {early late} inEarly inLate before => ?_
        intro first found second found'
        obtain ⟨_, _, rfl⟩ := List.mem_map.mp found
        obtain ⟨_, _, rfl⟩ := List.mem_map.mp found'
        have same : early.places.length = late.places.length := by
          rw [Route.places, Route.places, List.length_map, List.length_map,
            (mem_routes.mp inEarly).length, (mem_routes.mp inLate).length]
        rw [Route.places, Route.places, List.map_append, List.map_append]
        exact lex_append before same _ _

/-- A route comes only to ids that the snapshot answers. -/
theorem Connected.ids_subset {ids : Finset String} (faithful : graph.Faithful)
    (answered : ∀ id, (graph.node? id).isSome → id ∈ ids) {route : Route}
    (begins : source.id ∈ ids) (connected : Connected graph relationship source route) :
    ∀ id ∈ route.ids source, id ∈ ids := by
  induction route generalizing source with
  | nil => simpa [Route.ids] using begins
  | cons step rest ih =>
      obtain ⟨leaves, others⟩ := connected
      have arrives : step.node.id ∈ ids := by
        rw [faithful _ _ leaves.reached]
        exact answered _ (Option.isSome_of_eq_some leaves.reached)
      exact List.forall_mem_cons.mpr ⟨begins, ih arrives others⟩

theorem routes_eq_nil {ids : Finset String} (faithful : graph.Faithful)
    (answered : ∀ id, (graph.node? id).isSome → id ∈ ids) (begins : source.id ∈ ids)
    (long : ids.card ≤ length) : routes graph relationship source length = [] := by
  rw [List.eq_nil_iff_forall_not_mem]
  intro route member
  obtain ⟨connected, counted, simple⟩ := mem_routes.mp member
  have inside : (route.ids source).toFinset ⊆ ids := fun id found =>
    connected.ids_subset faithful answered begins id (List.mem_toFinset.mp found)
  have count : (route.ids source).length = length + 1 := by simp [Route.ids, counted]
  have fits := Finset.card_le_card inside
  rw [List.toFinset_card_of_nodup simple] at fits
  omega

theorem extensions_trail (faithful : graph.Faithful) (route : Route) :
    (route.trail source).extensions graph relationship =
      ((placedSteps graph relationship (route.last source)).filter fun step =>
        step.node.id ∉ route.ids source).map fun step => Route.trail source (route ++ [step]) := by
  have node : (route.trail source).node = route.last source := rfl
  rw [Trail.extensions, node, ← map_placedSteps]
  refine Enumerates.filterMap_map_eq fun step member => ?_
  have far : farEnd step.edge (route.last source).id = step.node.id :=
    (faithful _ _ (mem_placedSteps.mp member).reached).symm
  rw [far]
  by_cases known : step.node.id ∈ route.ids source
  · simp [Route.trail, known]
  · simp [Route.trail, known]

theorem grown_eq_map_routes (faithful : graph.Faithful) (length : Nat) :
    Trail.grown graph relationship length [Trail.start source] =
      (routes graph relationship source length).map (Route.trail source) := by
  induction length with
  | zero => rfl
  | succ length ih =>
      rw [Trail.grown, Function.iterate_succ_apply', ← Trail.grown, ih, routes, List.flatMap_map,
        List.map_flatMap]
      refine List.flatMap_congr fun route _ => ?_
      rw [extensions_trail faithful, List.map_map]
      rfl

end Match

end DocumentGraph
