import DocumentGraph.Evaluate.Run
import DocumentGraph.Proofs.Graph.Index
import DocumentGraph.Proofs.Ordered

namespace DocumentGraph.Graph

/-! What changes leave behind.

A graph that is reached from the empty one shows, whatever the order of the changes, the last
node added under each id and the accepted edges.  Its indices are only a faster way to search
the two lists of elements, so queries give the same answers over those lists.
-/

inductive Change where
  | node (node : Node)
  | edge (edge : Edge)

namespace Change

def node? : Change → Option Node
  | node value => some value
  | edge _ => none

def edge? : Change → Option Edge
  | node _ => none
  | edge value => some value

def nodes (changes : List Change) : List Node :=
  changes.filterMap node?

/-- The edges that changes offer, in order. -/
def edges (changes : List Change) : List Edge :=
  changes.filterMap edge?

variable (changes : List Change) (newNode : Node) (newEdge : Edge)

@[simp] theorem nodes_concat_node : nodes (changes ++ [node newNode]) = nodes changes ++ [newNode] := by
  simp [nodes, node?]

@[simp] theorem nodes_concat_edge : nodes (changes ++ [edge newEdge]) = nodes changes := by
  simp [nodes, List.filterMap_cons, node?]

@[simp] theorem edges_concat_node : edges (changes ++ [node newNode]) = edges changes := by
  simp [edges, List.filterMap_cons, edge?]

@[simp] theorem edges_concat_edge : edges (changes ++ [edge newEdge]) = edges changes ++ [newEdge] := by
  simp [edges, edge?]

end Change

/-- Makes a change.  A refused edge leaves the graph as it is. -/
def change (graph : Graph) : Change → Graph
  | .node node => graph.addNode node
  | .edge edge =>
      match graph.addEdge edge with
      | .ok (changed, _) => changed
      | .error _ => graph

/-- The graph that the changes, made one after the other, leave behind. -/
def ofChanges (changes : List Change) : Graph :=
  changes.foldl change empty

variable {graph changed : Graph} {node : Node} {edge : Edge} {inserted : Bool}

theorem Indexed.addNode_cases (indexed : graph.Indexed) (node : Node) :
    (∃ place, (graph.nodes.toList.map Node.id)[place]? = some node.id ∧
      graph.addNode node = { graph with nodes := graph.nodes.setIfInBounds place node }) ∨
    (node.id ∉ graph.nodes.toList.map Node.id ∧
      graph.addNode node = { graph with
        nodes := graph.nodes.push node
        nodePlaces := graph.nodePlaces.insert node.id graph.nodes.size }) := by
  cases found : graph.nodePlaces[node.id]? with
  | none =>
      exact .inr ⟨indexed.nodes.getElem?_eq_none_iff.mp found, by simp only [addNode, found]⟩
  | some place =>
      exact .inl ⟨place, (indexed.nodes node.id place).mp found, by simp only [addNode, found]⟩

/-- A replaced node keeps its place and a new one comes last. -/
theorem Indexed.ids_addNode (indexed : graph.Indexed) (node : Node) :
    (graph.addNode node).nodes.toList.map Node.id =
      if node.id ∈ graph.nodes.toList.map Node.id then graph.nodes.toList.map Node.id
      else graph.nodes.toList.map Node.id ++ [node.id] := by
  rcases indexed.addNode_cases node with ⟨place, stored, replaced⟩ | ⟨fresh, pushed⟩
  · rw [replaced, if_pos (List.mem_of_getElem? stored)]
    obtain ⟨inside, same⟩ := List.getElem?_eq_some_iff.mp stored
    rw [Array.toList_setIfInBounds, List.map_set, ← same, List.set_getElem_self]
  · rw [pushed, if_neg fresh]
    simp

theorem Indexed.mem_ids_addNode (indexed : graph.Indexed) {id : String}
    (member : id ∈ graph.nodes.toList.map Node.id) :
    id ∈ (graph.addNode node).nodes.toList.map Node.id := by
  rw [indexed.ids_addNode]
  split
  · exact member
  · exact List.mem_append_left _ member

@[simp] theorem edges_addNode (graph : Graph) (node : Node) :
    (graph.addNode node).edges = graph.edges := by
  unfold addNode
  split <;> rfl

theorem Indexed.addNode (indexed : graph.Indexed) (node : Node) :
    (graph.addNode node).Indexed := by
  have ends : ∀ edge ∈ (graph.addNode node).edges.toList,
      edge.source ∈ (graph.addNode node).nodes.toList.map Node.id ∧
      edge.target ∈ (graph.addNode node).nodes.toList.map Node.id := by
    intro edge member
    rw [edges_addNode] at member
    obtain ⟨source, target⟩ := indexed.ends edge member
    exact ⟨indexed.mem_ids_addNode source, indexed.mem_ids_addNode target⟩
  have ids := indexed.ids_addNode node
  rcases indexed.addNode_cases node with ⟨place, stored, replaced⟩ | ⟨fresh, pushed⟩
  · rw [if_pos (List.mem_of_getElem? stored)] at ids
    rw [replaced] at ids ends ⊢
    exact ⟨by rw [ids]; exact indexed.nodes, indexed.edges, indexed.outgoing, indexed.incoming, ends⟩
  · rw [if_neg fresh] at ids
    rw [pushed] at ids ends ⊢
    refine ⟨?_, indexed.edges, indexed.outgoing, indexed.incoming, ends⟩
    rw [ids]
    simpa using indexed.nodes.insert fresh

theorem Indexed.node?_addNode (indexed : graph.Indexed) (node : Node) (id : String) :
    (graph.addNode node).node? id = if node.id = id then some node else graph.node? id := by
  rcases indexed.addNode_cases node with ⟨place, stored, replaced⟩ | ⟨fresh, pushed⟩
  · have found := (indexed.nodes node.id place).mpr stored
    have inside : place < graph.nodes.size := by
      simpa using (List.getElem?_eq_some_iff.mp stored).1
    rw [replaced]
    by_cases same : node.id = id
    · subst same
      simp [node?, found, inside]
    · rw [if_neg same]
      change (graph.nodePlaces[id]?.bind fun place' =>
        (graph.nodes.setIfInBounds place node)[place']?) = graph.node? id
      cases elsewhere : graph.nodePlaces[id]? with
      | none => simp [node?, elsewhere]
      | some other =>
          have different : place ≠ other := by
            intro equal
            subst equal
            have both := stored.symm.trans ((indexed.nodes id place).mp elsewhere)
            exact same (Option.some.inj both)
          simp [node?, elsewhere, Array.getElem?_setIfInBounds, different]
  · have absent := indexed.nodes.getElem?_eq_none_iff.mpr fresh
    rw [(indexed.addNode node).node?_eq, indexed.node?_eq, pushed]
    simp only [Array.toList_push, List.find?_append, List.find?_singleton]
    by_cases same : node.id = id
    · subst same
      have none : graph.nodes.toList.find? (·.id = node.id) = none := by
        rw [List.find?_eq_none]
        intro other member equal
        exact fresh (List.mem_map.mpr ⟨other, member, by simpa using equal⟩)
      simp [none]
    · simp [same]

/-- The graph with an edge stored, whatever it holds. -/
def withEdge (graph : Graph) (edge : Edge) : Graph :=
  { graph with
    edges := graph.edges.push edge
    edgePlaces := graph.edgePlaces.insert edge.id graph.edges.size
    outgoingPlaces := graph.outgoingPlaces.insert edge.source
      (graph.outgoingPlaces[edge.source]?.getD [] ++ [graph.edges.size])
    incomingPlaces := graph.incomingPlaces.insert edge.target
      (graph.incomingPlaces[edge.target]?.getD [] ++ [graph.edges.size]) }

theorem Indexed.missingEndpoint?_eq_none_iff (indexed : graph.Indexed) :
    graph.missingEndpoint? edge = none ↔
      edge.source ∈ graph.nodes.toList.map Node.id ∧
      edge.target ∈ graph.nodes.toList.map Node.id := by
  rw [← indexed.nodes.contains_iff, ← indexed.nodes.contains_iff]
  simp [missingEndpoint?]

/-- An accepted edge is either known already or stored behind the others. -/
theorem Indexed.addEdge_eq_ok_iff (indexed : graph.Indexed) :
    graph.addEdge edge = .ok (changed, inserted) ↔
      (edge.source ∈ graph.nodes.toList.map Node.id ∧
        edge.target ∈ graph.nodes.toList.map Node.id) ∧
      (edge.id ∈ graph.edges.toList.map Edge.id ∧ changed = graph ∧ inserted = false ∨
        edge.id ∉ graph.edges.toList.map Edge.id ∧ changed = graph.withEdge edge ∧
          inserted = true) := by
  rw [← indexed.missingEndpoint?_eq_none_iff, ← indexed.edges.contains_iff]
  cases missing : graph.missingEndpoint? edge with
  | some endpoint => simp [addEdge, missing]
  | none =>
      cases known : graph.edgePlaces.contains edge.id with
      | true => simp [addEdge, missing, known, eq_comm]
      | false => simp [addEdge, missing, known, withEdge, eq_comm]

theorem Indexed.withEdge (indexed : graph.Indexed)
    (source : edge.source ∈ graph.nodes.toList.map Node.id)
    (target : edge.target ∈ graph.nodes.toList.map Node.id)
    (fresh : edge.id ∉ graph.edges.toList.map Edge.id) : (graph.withEdge edge).Indexed where
  nodes := indexed.nodes
  edges := by simpa [Graph.withEdge] using indexed.edges.insert fresh
  outgoing := by simpa [Graph.withEdge] using indexed.outgoing.insert edge.source
  incoming := by simpa [Graph.withEdge] using indexed.incoming.insert edge.target
  ends := by
    intro other member
    have cases : other ∈ graph.edges.toList ∨ other = edge := by
      simpa [Graph.withEdge] using member
    rcases cases with old | rfl
    · exact indexed.ends other old
    · exact ⟨source, target⟩

/-- An edge that is refused or known changes nothing; any other is stored last. -/
theorem Indexed.change_edge_cases (indexed : graph.Indexed) (edge : Edge) :
    graph.change (.edge edge) = graph ∨
      graph.addEdge edge = .ok (graph.withEdge edge, true) ∧
        graph.change (.edge edge) = graph.withEdge edge ∧ (graph.withEdge edge).Indexed := by
  cases outcome : graph.addEdge edge with
  | error reason => exact .inl (by simp only [change, outcome])
  | ok result =>
      obtain ⟨changed, inserted⟩ := result
      obtain ⟨⟨source, target⟩, known | new⟩ := indexed.addEdge_eq_ok_iff.mp outcome
      · obtain ⟨_, rfl, rfl⟩ := known
        exact .inl (by simp only [change, outcome])
      · obtain ⟨fresh, rfl, rfl⟩ := new
        exact .inr ⟨rfl, by simp only [change, outcome], indexed.withEdge source target fresh⟩

theorem indexed_empty : empty.Indexed where
  nodes := PlacesOf.empty
  edges := PlacesOf.empty
  outgoing := AdjacencyOf.empty
  incoming := AdjacencyOf.empty
  ends := by simp [empty]

theorem Indexed.change (indexed : graph.Indexed) (change : Change) :
    (graph.change change).Indexed := by
  cases change with
  | node node => exact indexed.addNode node
  | edge edge =>
      rcases indexed.change_edge_cases edge with same | ⟨_, stored, valid⟩
      · rw [same]; exact indexed
      · rw [stored]; exact valid

@[simp] theorem ofChanges_concat (changes : List Change) (last : Change) :
    ofChanges (changes ++ [last]) = (ofChanges changes).change last := by
  simp [ofChanges]

theorem indexed_ofChanges (changes : List Change) : (ofChanges changes).Indexed := by
  induction changes using List.reverseRecOn with
  | nil => exact indexed_empty
  | append_singleton changes last ih =>
      rw [ofChanges_concat]
      exact ih.change last

theorem node?_change_edge (indexed : graph.Indexed) (edge : Edge) (id : String) :
    (graph.change (.edge edge)).node? id = graph.node? id := by
  rcases indexed.change_edge_cases edge with same | ⟨_, stored, _⟩
  · rw [same]
  · rw [stored]; rfl

theorem nodes_change_edge (indexed : graph.Indexed) (edge : Edge) :
    (graph.change (.edge edge)).nodes = graph.nodes := by
  rcases indexed.change_edge_cases edge with same | ⟨_, stored, _⟩
  · rw [same]
  · rw [stored]; rfl

/-- The last node added under an id counts. -/
theorem node?_ofChanges (changes : List Change) (id : String) :
    (ofChanges changes).node? id = (Change.nodes changes).reverse.find? (·.id = id) := by
  induction changes using List.reverseRecOn with
  | nil => rfl
  | append_singleton changes last ih =>
      have indexed := indexed_ofChanges changes
      rw [ofChanges_concat]
      cases last with
      | edge edge => rw [node?_change_edge indexed, ih, Change.nodes_concat_edge]
      | node node =>
          change ((ofChanges changes).addNode node).node? id = _
          rw [indexed.node?_addNode, ih, Change.nodes_concat_node]
          by_cases same : node.id = id <;> simp [same]

/-- Nodes stand where their ids came first. -/
theorem ids_ofChanges (changes : List Change) :
    (ofChanges changes).nodes.toList.map Node.id =
      ((Change.nodes changes).map Node.id).eraseDups := by
  induction changes using List.reverseRecOn with
  | nil => rfl
  | append_singleton changes last ih =>
      have indexed := indexed_ofChanges changes
      rw [ofChanges_concat]
      cases last with
      | edge edge => rw [nodes_change_edge indexed, ih, Change.nodes_concat_edge]
      | node node =>
          change ((ofChanges changes).addNode node).nodes.toList.map Node.id = _
          rw [indexed.ids_addNode, ih, Change.nodes_concat_node, List.map_append, List.map_singleton,
            Ordered.eraseDups_concat]

/-- Edges stand in the order in which they were added. -/
theorem edges_ofChanges (changes : List Change) :
    (ofChanges changes).edges.toList.Sublist (Change.edges changes) := by
  induction changes using List.reverseRecOn with
  | nil => exact List.Sublist.refl []
  | append_singleton changes last ih =>
      have indexed := indexed_ofChanges changes
      rw [ofChanges_concat]
      cases last with
      | node node =>
          change ((ofChanges changes).addNode node).edges.toList.Sublist _
          rw [edges_addNode, Change.edges_concat_node]
          exact ih
      | edge edge =>
          rw [Change.edges_concat_edge]
          rcases indexed.change_edge_cases edge with same | ⟨_, stored, _⟩
          · rw [same]
            exact ih.trans (List.sublist_append_left _ _)
          · rw [stored]
            simpa [withEdge] using ih

/-- What a graph shows after some changes. -/
structure Shows (graph : Graph) (changes : List Change) : Prop where
  node : ∀ id, graph.node? id = (Change.nodes changes).reverse.find? (·.id = id)
  nodes : graph.nodes.toList =
    ((Change.nodes changes).map Node.id).eraseDups.filterMap graph.node?
  edgeIds : (graph.edges.toList.map Edge.id).Nodup
  edgeOrder : graph.edges.toList.Sublist (Change.edges changes)
  edge : ∀ id edge, graph.edge? id = some edge ↔ edge ∈ graph.edges.toList ∧ edge.id = id
  ends : ∀ edge ∈ graph.edges.toList,
    (graph.node? edge.source).isSome ∧ (graph.node? edge.target).isSome
  outgoing : ∀ id, graph.outgoing id = graph.edges.toList.filter (·.source = id)
  incoming : ∀ id, graph.incoming id = graph.edges.toList.filter (·.target = id)
  /-- An edge between nodes of the graph is stored unless its id is taken. -/
  stores : ∀ edge, (graph.node? edge.source).isSome → (graph.node? edge.target).isSome →
    graph.edge? edge.id = none → ∃ changed, graph.addEdge edge = .ok (changed, true) ∧
      changed.edges.toList = graph.edges.toList ++ [edge] ∧
      changed.nodes = graph.nodes

theorem shows_ofChanges (changes : List Change) : (ofChanges changes).Shows changes := by
  have indexed := indexed_ofChanges changes
  refine {
    node := node?_ofChanges changes
    nodes := by rw [← ids_ofChanges, indexed.filterMap_node?]
    edgeIds := indexed.edges.nodup
    edgeOrder := edges_ofChanges changes
    edge := fun _ _ => indexed.edge?_eq_some_iff
    ends := ?_
    outgoing := indexed.outgoing_eq
    incoming := indexed.incoming_eq
    stores := ?_ }
  · intro edge member
    obtain ⟨source, target⟩ := indexed.ends edge member
    exact ⟨indexed.isSome_node?_iff.mpr source, indexed.isSome_node?_iff.mpr target⟩
  · intro edge source target free
    have fresh : edge.id ∉ (ofChanges changes).edges.toList.map Edge.id := by
      intro taken
      obtain ⟨other, member, same⟩ := List.mem_map.mp taken
      have found := indexed.edge?_eq_some_iff.mpr ⟨member, same⟩
      rw [free] at found
      contradiction
    refine ⟨(ofChanges changes).withEdge edge, indexed.addEdge_eq_ok_iff.mpr
      ⟨⟨indexed.isSome_node?_iff.mp source, indexed.isSome_node?_iff.mp target⟩,
        .inr ⟨fresh, rfl, rfl⟩⟩, ?_, rfl⟩
    simp [withEdge]

/-- A graph made by changes shows exactly what was added, an edge that is refused or known
leaves it as it is, and every query answers as over the bare lists of its elements. -/
theorem ofChanges_observed (changes : List Change) :
    (ofChanges changes).Shows changes ∧
    (∀ edge, (∀ changed, (ofChanges changes).addEdge edge ≠ .ok (changed, true)) →
      ofChanges (changes ++ [.edge edge]) = ofChanges changes) ∧
    ∀ (query : Query) (maxDepth : Nat),
      query.run (ofChanges changes).snapshot maxDepth =
        query.run (Snapshot.ofLists (ofChanges changes).nodes.toList
          (ofChanges changes).edges.toList) maxDepth := by
  have indexed := indexed_ofChanges changes
  refine ⟨shows_ofChanges changes, ?_, ?_⟩
  · intro edge notStored
    rw [ofChanges_concat]
    rcases indexed.change_edge_cases edge with same | ⟨stored, _⟩
    · exact same
    · exact absurd stored (notStored _)
  · intro query maxDepth
    rw [indexed.snapshot_eq]

end DocumentGraph.Graph
