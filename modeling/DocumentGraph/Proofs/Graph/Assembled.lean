import DocumentGraph.Proofs.Graph.Change

namespace DocumentGraph.Graph

/-! Graphs that get all their nodes before their edges.

Then an edge is refused only if one of its ends is no node at all, wherever the edge stands among
the others.
-/

variable {nodes : List Node} {edges : List Edge} {node : Node} {edge : Edge} {id : String}

/-- The graph of the nodes and of the edges between them. -/
def assemble (nodes : List Node) (edges : List Edge) : Graph :=
  ofChanges (nodes.map .node ++ edges.map .edge)

theorem indexed_assemble (nodes : List Node) (edges : List Edge) :
    (assemble nodes edges).Indexed :=
  indexed_ofChanges _

theorem changeNodes_append (nodes : List Node) (edges : List Edge) :
    Change.nodes (nodes.map .node ++ edges.map .edge) = nodes := by
  simp [Change.nodes, List.filterMap_map, Function.comp_def, Change.node?]

theorem changeEdges_append (nodes : List Node) (edges : List Edge) :
    Change.edges (nodes.map .node ++ edges.map .edge) = edges := by
  simp [Change.edges, List.filterMap_map, Function.comp_def, Change.edge?]

theorem assemble_concat_edge (nodes : List Node) (edges : List Edge) (last : Edge) :
    assemble nodes (edges ++ [last]) = (assemble nodes edges).change (.edge last) := by
  rw [assemble, List.map_append, ← List.append_assoc]
  exact ofChanges_concat _ _

theorem mem_ids_assemble :
    id ∈ (assemble nodes edges).nodes.toList.map Node.id ↔ id ∈ nodes.map Node.id := by
  rw [assemble, ids_ofChanges, changeNodes_append, List.mem_eraseDups]

theorem mem_of_node?_assemble (found : (assemble nodes edges).node? id = some node) :
    node ∈ nodes ∧ node.id = id := by
  rw [assemble, node?_ofChanges, changeNodes_append] at found
  exact ⟨List.mem_reverse.mp (List.mem_of_find?_eq_some found), by simpa using List.find?_some found⟩

theorem exists_node?_assemble (known : id ∈ nodes.map Node.id) :
    ∃ node, (assemble nodes edges).node? id = some node := by
  obtain ⟨node, member, rfl⟩ := List.mem_map.mp known
  have present : (nodes.reverse.find? (·.id = node.id)).isSome :=
    List.find?_isSome.mpr ⟨node, List.mem_reverse.mpr member, by simp⟩
  rw [assemble, node?_ofChanges, changeNodes_append]
  exact Option.isSome_iff_exists.mp present

theorem mem_of_mem_assemble (stored : node ∈ (assemble nodes edges).nodes.toList) :
    node ∈ nodes := by
  have found : (assemble nodes edges).node? node.id = some node :=
    (indexed_assemble nodes edges).node?_eq_some_iff.mpr ⟨stored, rfl⟩
  exact (mem_of_node?_assemble found).1

/-- If nodes with the same id are the same, none of them is lost. -/
theorem mem_assemble_iff
    (determined : ∀ node ∈ nodes, ∀ other ∈ nodes, node.id = other.id → node = other) :
    node ∈ (assemble nodes edges).nodes.toList ↔ node ∈ nodes := by
  refine ⟨mem_of_mem_assemble, fun member => ?_⟩
  obtain ⟨other, stored, same⟩ := List.mem_map.mp
    (mem_ids_assemble.mpr (List.mem_map_of_mem (f := Node.id) member))
  rwa [determined other (mem_of_mem_assemble stored) node member same] at stored

/-- After the change the id of an edge between two nodes is taken. -/
theorem Indexed.mem_edgeIds_change {graph : Graph} (indexed : graph.Indexed)
    (source : edge.source ∈ graph.nodes.toList.map Node.id)
    (target : edge.target ∈ graph.nodes.toList.map Node.id) :
    edge.id ∈ (graph.change (.edge edge)).edges.toList.map Edge.id := by
  by_cases known : edge.id ∈ graph.edges.toList.map Edge.id
  · have kept := indexed.addEdge_eq_ok_iff.mpr ⟨⟨source, target⟩, .inl ⟨known, rfl, rfl⟩⟩
    simpa only [Graph.change, kept] using known
  · have stored := indexed.addEdge_eq_ok_iff.mpr ⟨⟨source, target⟩, .inr ⟨known, rfl, rfl⟩⟩
    simp only [Graph.change, stored, Graph.withEdge]
    simp

theorem Indexed.edges_subset_change {graph : Graph} (indexed : graph.Indexed) (edge : Edge) :
    graph.edges.toList ⊆ (graph.change (.edge edge)).edges.toList := by
  rcases indexed.change_edge_cases edge with same | ⟨_, stored, _⟩
  · rw [same]
    exact List.Subset.refl _
  · rw [stored, Graph.withEdge, Array.toList_push]
    exact List.subset_append_left _ _

theorem exists_edge_assemble (offered : edge ∈ edges) (source : edge.source ∈ nodes.map Node.id)
    (target : edge.target ∈ nodes.map Node.id) :
    ∃ stored ∈ (assemble nodes edges).edges.toList, stored.id = edge.id := by
  induction edges using List.reverseRecOn with
  | nil => contradiction
  | append_singleton edges last ih =>
      have indexed := indexed_assemble nodes edges
      rw [assemble_concat_edge]
      rcases List.mem_append.mp offered with early | final
      · obtain ⟨stored, member, same⟩ := ih early
        exact ⟨stored, indexed.edges_subset_change last member, same⟩
      · obtain rfl := List.mem_singleton.mp final
        exact List.mem_map.mp
          (indexed.mem_edgeIds_change (mem_ids_assemble.mpr source) (mem_ids_assemble.mpr target))

/-- An edge of the given type leads from the source to the target. -/
def Joins (graph : Graph) (source type target : String) : Prop :=
  ∃ edge ∈ graph.edges.toList, edge.source = source ∧ edge.type = type ∧ edge.target = target

/-- An edge of the graph was offered, and both its ends are nodes. -/
theorem offered_of_mem_edges (stored : edge ∈ (assemble nodes edges).edges.toList) :
    edge ∈ edges ∧ edge.source ∈ nodes.map Node.id ∧ edge.target ∈ nodes.map Node.id := by
  obtain ⟨source, target⟩ := (indexed_assemble nodes edges).ends edge stored
  have offered := (edges_ofChanges (nodes.map .node ++ edges.map .edge)).subset stored
  rw [changeEdges_append] at offered
  exact ⟨offered, mem_ids_assemble.mp source, mem_ids_assemble.mp target⟩

end DocumentGraph.Graph
