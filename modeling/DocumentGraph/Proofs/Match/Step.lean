import DocumentGraph.Graph.Snapshot
import DocumentGraph.Match.Hop
import DocumentGraph.Proofs.Graph.Index
import DocumentGraph.Proofs.Match.Choice
import DocumentGraph.Proofs.Match.Enumeration

namespace DocumentGraph.Match

open Query (Direction RelationshipPattern)

/-! The steps from a node.

The steps that the search takes from a node of an indexed graph are the crossings of stored
edges that leave the node as the relationship asks for.  A loop that may be crossed either way
is crossed twice.
-/

variable {graph : Graph} {relationship : RelationshipPattern}

theorem crossings_enumerate (indexed : graph.Indexed) (id : String) (outward : Bool) :
    Enumerates (graph.edges.toList.filter fun edge => (Crossing.mk edge outward).departure = id)
      (fun crossing => crossing.edge ∈ graph.edges.toList ∧ crossing.outward = outward ∧
        crossing.departure = id) Crossing.edge := by
  have distinct : graph.edges.toList.Nodup := List.Nodup.of_map Edge.id indexed.edges.nodup
  refine (Enumerates.ofNodup (distinct.filter _)).reindex (fun edge => Crossing.mk edge outward)
    ?_ ?_ ?_
  · intro left right _ _ equal
    exact (Crossing.mk.inj equal).1
  · intro crossing
    obtain ⟨edge, way⟩ := crossing
    constructor
    · intro wanted
      obtain ⟨stored, rfl, departs⟩ := wanted
      exact ⟨edge, by simp [stored, departs], rfl⟩
    · intro found
      obtain ⟨_, found, equal⟩ := found
      obtain ⟨rfl, rfl⟩ := Crossing.mk.inj equal
      simpa using found
  · exact fun _ _ => rfl

theorem incident_enumerates (indexed : graph.Indexed) (id : String) (direction : Direction) :
    Enumerates (incident graph.snapshot id direction)
      (fun crossing => crossing.edge ∈ graph.edges.toList ∧ crossing.Runs direction ∧
        crossing.departure = id) Crossing.edge := by
  have outward : Enumerates (graph.outgoing id) _ Crossing.edge :=
    indexed.outgoing_eq id ▸ crossings_enumerate indexed id true
  have inward : Enumerates (graph.incoming id) _ Crossing.edge :=
    indexed.incoming_eq id ▸ crossings_enumerate indexed id false
  cases direction with
  | forward => exact outward
  | backward => exact inward
  | either =>
      refine (outward.append inward ?_).congr ?_ fun _ _ => rfl
      · intro crossing outward inward
        obtain ⟨_, out, _⟩ := outward
        obtain ⟨_, back, _⟩ := inward
        rw [out] at back
        contradiction
      · intro crossing
        cases crossing.outward <;> simp [Crossing.Runs]

theorem admits_iff {edge : Edge} :
    admits relationship edge = true ↔ ∀ type ∈ relationship.type, edge.type = type.name := by
  unfold admits
  cases relationship.type <;> simp

theorem farEnd_departure (crossing : Crossing) :
    farEnd crossing.edge crossing.departure = crossing.arrival := by
  unfold farEnd Crossing.departure Crossing.arrival
  cases crossing.outward with
  | true => simp
  | false =>
      by_cases loop : crossing.edge.source = crossing.edge.target
      · simp [loop]
      · simp [loop]

/-- A crossing of a stored edge from one id to a node, as a relationship asks for. -/
structure Takes (graph : Graph) (relationship : RelationshipPattern) (departure : String)
    (crossing : Crossing) (next : Node) : Prop where
  stored : crossing.edge ∈ graph.edges.toList
  typed : ∀ type ∈ relationship.type, crossing.edge.type = type.name
  directed : crossing.Runs relationship.direction
  departs : crossing.departure = departure
  arrives : next.id = crossing.arrival
  node : next ∈ graph.nodes.toList

theorem takes_iff (indexed : graph.Indexed) {departure : String} {crossing : Crossing}
    {next : Node} :
    Takes graph relationship departure crossing next ↔
      (crossing.edge ∈ graph.edges.toList ∧ crossing.Runs relationship.direction ∧
        crossing.departure = departure) ∧
      admits relationship crossing.edge = true ∧ graph.node? crossing.arrival = some next := by
  rw [admits_iff, indexed.node?_eq_some_iff]
  constructor
  · intro takes
    exact ⟨⟨takes.stored, takes.directed, takes.departs⟩, takes.typed, takes.node, takes.arrives⟩
  · intro found
    obtain ⟨⟨stored, directed, departs⟩, typed, node, arrives⟩ := found
    exact { stored, typed, directed, departs, arrives, node }

theorem steps_enumerate (indexed : graph.Indexed) (relationship : RelationshipPattern)
    (node : Node) :
    Enumerates (steps graph.snapshot relationship node)
      (fun taken : Crossing × Node => Takes graph relationship node.id taken.1 taken.2)
      (fun taken => { edge := taken.1.edge, node := taken.2 }) := by
  have step : ∀ crossing : Crossing, crossing.edge ∈ graph.edges.toList ∧
      crossing.Runs relationship.direction ∧ crossing.departure = node.id →
      Enumerates
        (if admits relationship crossing.edge then
          (graph.node? (farEnd crossing.edge node.id)).map fun next =>
            ({ edge := crossing.edge, node := next } : Step)
        else none).toList
        (fun next => admits relationship crossing.edge = true ∧
          graph.node? crossing.arrival = some next)
        (fun next => { edge := crossing.edge, node := next }) := by
    intro crossing found
    obtain ⟨_, _, departs⟩ := found
    rw [← departs, farEnd_departure]
    cases admitted : admits relationship crossing.edge with
    | false => exact Enumerates.nothing (by simp)
    | true => simpa using Enumerates.ofOption _
  unfold steps
  rw [List.filterMap_eq_flatMap_toList]
  refine ((incident_enumerates indexed node.id relationship.direction).flatMap step).congr ?_ ?_
  · exact fun _ => takes_iff indexed
  · exact fun _ _ => rfl

end DocumentGraph.Match
