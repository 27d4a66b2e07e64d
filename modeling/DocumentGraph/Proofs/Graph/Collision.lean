import DocumentGraph.Proofs.Document.Name
import DocumentGraph.Proofs.Graph.Assembled
import DocumentGraph.Query.Vocabulary

namespace DocumentGraph

/-! Edges whose ids collide.

An edge is known by its id, which joins its source, its type and its target.  Two edges with
different ends or types have the same id only if one source goes on behind the other as the id
itself does.  So a graph takes an edge for another one only where ids hold the name of a type behind
two dashes.
-/

namespace Edge

variable {edge other : Edge}

/-- An edge of a known type that is named after its type and its ends. -/
structure Derived (edge : Edge) : Prop where
  id : edge.id = derivedId edge.source edge.type edge.target
  type : edge.type ∈ Query.relationshipTypes

theorem derived_between (source target : String) {type : String}
    (known : type ∈ Query.relationshipTypes) : (between source type target).Derived :=
  ⟨rfl, known⟩

theorem isDashless_of_known {type : String} (known : type ∈ Query.relationshipTypes) :
    IsDashless type := by
  have each : ∀ type ∈ Query.relationshipTypes, type ≠ "" ∧ '-' ∉ type.toList := by decide
  exact each type known

/-- The source of the longer edge goes on behind the shorter source, with dashes and the type of
the shorter edge, and what is left of the two ids agrees. -/
def Overlaps (shorter longer : Edge) : Prop :=
  ∃ rest, longer.source = shorter.source ++ "--" ++ shorter.type ++ rest ∧
    "--" ++ shorter.target = rest ++ "--" ++ longer.type ++ "--" ++ longer.target

theorem Overlaps.id_eq (overlaps : edge.Overlaps other) (derived : edge.Derived)
    (derived' : other.Derived) : edge.id = other.id := by
  obtain ⟨rest, sources, targets⟩ := overlaps
  rw [derived.id, derived'.id]
  calc derivedId edge.source edge.type edge.target
      = edge.source ++ "--" ++ edge.type ++ ("--" ++ edge.target) := by
        simp only [derivedId, String.append_assoc]
    _ = derivedId other.source other.type other.target := by
        simp only [targets, derivedId, sources, String.append_assoc]

theorem overlaps_of_longer {extra : List Char} (derived : edge.Derived)
    (longer : other.source.toList = edge.source.toList ++ extra) (nonempty : extra ≠ [])
    (behind : '-' :: '-' :: (edge.type.toList ++ '-' :: '-' :: edge.target.toList) =
      extra ++ '-' :: '-' :: (other.type.toList ++ '-' :: '-' :: other.target.toList)) :
    edge.Overlaps other := by
  obtain ⟨rest, rfl, left⟩ :=
    exists_rest_of_derivedId (isDashless_of_known derived.type) nonempty behind
  refine ⟨String.ofList rest, String.toList_inj.mp ?_, String.toList_inj.mp ?_⟩
  · simp [longer]
  · simpa using left

/-- Ids agree just where the ends and the types do, or where the edges overlap. -/
theorem Derived.id_eq_iff (derived : edge.Derived) (derived' : other.Derived) :
    edge.id = other.id ↔
      (edge.source = other.source ∧ edge.type = other.type ∧ edge.target = other.target) ∨
        edge.Overlaps other ∨ other.Overlaps edge := by
  constructor
  · intro same
    have texts := congrArg String.toList (derived.id.symm.trans (same.trans derived'.id))
    rw [toList_derivedId, toList_derivedId, List.append_eq_append_iff] at texts
    have alike (sources : edge.source = other.source) :
        edge.source = other.source ∧ edge.type = other.type ∧ edge.target = other.target := by
      rw [derived.id, derived'.id, sources] at same
      exact ⟨sources, derivedId_source_inj (isDashless_of_known derived.type)
        (isDashless_of_known derived'.type) same⟩
    rcases texts with ⟨extra, longer, behind⟩ | ⟨extra, longer, behind⟩
    · by_cases empty : extra = []
      · rw [empty, List.append_nil] at longer
        exact .inl (alike (String.toList_inj.mp longer.symm))
      · exact .inr (.inl (overlaps_of_longer derived longer empty behind))
    · by_cases empty : extra = []
      · rw [empty, List.append_nil] at longer
        exact .inl (alike (String.toList_inj.mp longer))
      · exact .inr (.inr (overlaps_of_longer derived' longer empty behind))
  · rintro (⟨sources, types, targets⟩ | overlaps | overlaps)
    · rw [derived.id, derived'.id, sources, types, targets]
    · exact overlaps.id_eq derived derived'
    · exact (overlaps.id_eq derived' derived).symm

/-- An id that holds the name of a type behind two dashes. -/
def HoldsType (id : String) : Prop :=
  ∃ type ∈ Query.relationshipTypes, ("--" ++ type).toList <:+: id.toList

instance : DecidablePred HoldsType :=
  fun id => inferInstanceAs
    (Decidable (∃ type ∈ Query.relationshipTypes, ("--" ++ type).toList <:+: id.toList))

theorem Overlaps.holdsType (overlaps : edge.Overlaps other) (derived : edge.Derived) :
    HoldsType other.source := by
  obtain ⟨rest, sources, _⟩ := overlaps
  refine ⟨edge.type, derived.type, edge.source.toList, rest.toList, ?_⟩
  rw [sources]
  simp

end Edge

namespace Graph

variable {changes : List Change} {edge : Edge}

/-- The id of an edge is taken if it is the id of an edge with the same ends and type, or of one
that overlaps. -/
theorem mem_ids_iff_joins_or_overlaps {graph : Graph}
    (named : ∀ stored ∈ graph.edges.toList, stored.Derived) (derived : edge.Derived) :
    edge.id ∈ graph.edges.toList.map Edge.id ↔
      graph.Joins edge.source edge.type edge.target ∨
        ∃ stored ∈ graph.edges.toList, stored.Overlaps edge ∨ edge.Overlaps stored := by
  rw [List.mem_map]
  constructor
  · rintro ⟨stored, member, same⟩
    rcases ((named stored member).id_eq_iff derived).mp same with alike | overlaps
    · exact .inl ⟨stored, member, alike⟩
    · exact .inr ⟨stored, member, overlaps⟩
  · rintro (⟨stored, member, alike⟩ | ⟨stored, member, overlaps⟩)
    · exact ⟨stored, member, ((named stored member).id_eq_iff derived).mpr (.inl alike)⟩
    · exact ⟨stored, member, ((named stored member).id_eq_iff derived).mpr (.inr overlaps)⟩

/-- Of edges that are named after their ends, one between two nodes is taken for a stored one just
if that has the same ends and type, or if the two overlap.  Where no source holds the name of a type
behind two dashes, they never overlap, and every edge between two nodes is in the graph once it
was added. -/
theorem addEdge_known_iff (named : ∀ offered ∈ Change.edges changes, offered.Derived)
    (derived : edge.Derived) (source : ((ofChanges changes).node? edge.source).isSome)
    (target : ((ofChanges changes).node? edge.target).isSome) :
    ∃ changed inserted, (ofChanges changes).addEdge edge = .ok (changed, inserted) ∧
      (inserted = false ↔ (ofChanges changes).Joins edge.source edge.type edge.target ∨
        ∃ stored ∈ (ofChanges changes).edges.toList,
          stored.Overlaps edge ∨ edge.Overlaps stored) ∧
      ((∀ offered ∈ edge :: Change.edges changes, ¬ Edge.HoldsType offered.source) →
        (inserted = false ↔ (ofChanges changes).Joins edge.source edge.type edge.target) ∧
          changed.Joins edge.source edge.type edge.target) := by
  have indexed := indexed_ofChanges changes
  have offered := (edges_ofChanges changes).subset
  have stored : ∀ stored ∈ (ofChanges changes).edges.toList, stored.Derived :=
    fun stored member => named stored (offered member)
  have ends := And.intro (indexed.isSome_node?_iff.mp source) (indexed.isSome_node?_iff.mp target)
  have taken := mem_ids_iff_joins_or_overlaps stored derived
  have apart (plain : ∀ offered ∈ edge :: Change.edges changes, ¬ Edge.HoldsType offered.source) :
      ¬ ∃ stored ∈ (ofChanges changes).edges.toList,
        stored.Overlaps edge ∨ edge.Overlaps stored := by
    rintro ⟨other, member, overlaps | overlaps⟩
    · exact plain edge List.mem_cons_self (overlaps.holdsType (stored other member))
    · exact plain other (List.mem_cons_of_mem _ (offered member)) (overlaps.holdsType derived)
  by_cases known : edge.id ∈ (ofChanges changes).edges.toList.map Edge.id
  · refine ⟨_, false, indexed.addEdge_eq_ok_iff.mpr ⟨ends, .inl ⟨known, rfl, rfl⟩⟩,
      iff_of_true rfl (taken.mp known), fun plain => ?_⟩
    have joined := (taken.mp known).resolve_right (apart plain)
    exact ⟨iff_of_true rfl joined, joined⟩
  · refine ⟨_, true, indexed.addEdge_eq_ok_iff.mpr ⟨ends, .inr ⟨known, rfl, rfl⟩⟩,
      iff_of_false Bool.noConfusion (mt taken.mpr known), fun plain => ?_⟩
    refine ⟨iff_of_false Bool.noConfusion fun joined => known (taken.mpr (.inl joined)), ?_⟩
    exact ⟨edge, by simp [withEdge], rfl, rfl, rfl⟩

/-- A source with two dashes and a target with the name of a type behind them. -/
def dashedIds : List Change :=
  ["a--b", "c--LINKS_TO--d"].map (fun id => .node { id }) ++
    [.edge (Edge.between "a--b" "LINKS_TO" "c--LINKS_TO--d")]

theorem addEdge_known_iff_dashedIds :
    (∀ offered ∈ Change.edges dashedIds, offered.Derived) ∧
      ∃ changed inserted, (ofChanges dashedIds).addEdge
          (Edge.between "a--b" "CONTAINS" "c--LINKS_TO--d") = .ok (changed, inserted) ∧
        changed.Joins "a--b" "CONTAINS" "c--LINKS_TO--d" := by
  have named : ∀ offered ∈ Change.edges dashedIds, offered.Derived :=
    List.forall_mem_singleton.mpr (Edge.derived_between _ _ (by decide))
  obtain ⟨changed, inserted, added, _, plain⟩ := addEdge_known_iff named
    (Edge.derived_between "a--b" "c--LINKS_TO--d" (show "CONTAINS" ∈ _ by decide))
    (by decide +kernel) (by decide +kernel)
  exact ⟨named, changed, inserted, added, (plain (by decide +kernel)).2⟩

/-- Sources with the name of a type in them, and an edge from the longer one. -/
def heldTypes : List Change :=
  ["a", "a--LINKS_TO--b", "b--LINKS_TO--c", "c"].map (fun id => .node { id }) ++
    [.edge (Edge.between "a--LINKS_TO--b" "LINKS_TO" "c")]

/-- Another edge is taken for the one in the graph, and is lost. -/
theorem addEdge_heldTypes_lost :
    (∀ offered ∈ Change.edges heldTypes, offered.Derived) ∧
      (Edge.between "a" "LINKS_TO" "b--LINKS_TO--c").Derived ∧
      ((ofChanges heldTypes).node? "a").isSome ∧
      ((ofChanges heldTypes).node? "b--LINKS_TO--c").isSome ∧
      (ofChanges heldTypes).addEdge (Edge.between "a" "LINKS_TO" "b--LINKS_TO--c") =
        .ok (ofChanges heldTypes, false) ∧
      ¬ (ofChanges heldTypes).Joins "a" "LINKS_TO" "b--LINKS_TO--c" := by
  have edges : (ofChanges heldTypes).edges.toList =
      [Edge.between "a--LINKS_TO--b" "LINKS_TO" "c"] := by decide +kernel
  have nodes : (ofChanges heldTypes).nodes.toList.map Node.id =
      ["a", "a--LINKS_TO--b", "b--LINKS_TO--c", "c"] := by decide +kernel
  have indexed := indexed_ofChanges heldTypes
  refine ⟨List.forall_mem_singleton.mpr (Edge.derived_between _ _ (by decide)),
    Edge.derived_between _ _ (by decide), indexed.isSome_node?_iff.mpr (by simp [nodes]),
    indexed.isSome_node?_iff.mpr (by simp [nodes]),
    indexed.addEdge_eq_ok_iff.mpr ⟨?_, .inl ⟨?_, rfl, rfl⟩⟩, ?_⟩
  · simp [nodes, Edge.between]
  · rw [edges]
    decide
  · rintro ⟨stored, member, source, _⟩
    rw [edges, List.mem_singleton] at member
    subst member
    exact absurd source (by decide)

end Graph

end DocumentGraph
