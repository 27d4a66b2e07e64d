import DocumentGraph.Document.Link
import DocumentGraph.Proofs.Document.Name
import DocumentGraph.Proofs.Ordered

namespace DocumentGraph.Document

/-! The edges of a document.

They leave its node and are named after their ends, so of edges with the same type and target one
is kept.  A link of any syntax into another skill comes with a dependency, and no dependency comes
without such a link.
-/

variable {node : Node} {body : List Char} {edge : Edge} {type target : String}

def linkTypes : List String :=
  ["LINKS_TO", "CONTAINS", "REFERENCES", "DEPENDS_ON"]

theorem isDashless_of_mem_linkTypes (known : type ∈ linkTypes) : IsDashless type := by
  have each : ∀ type ∈ linkTypes, type ≠ "" ∧ '-' ∉ type.toList := by decide
  exact each type known

/-- An edge from a node, of a known type, named after its ends. -/
structure Leaves (node : Node) (edge : Edge) : Prop where
  id : edge.id = Edge.derivedId edge.source edge.type edge.target
  source : edge.source = node.id
  type : edge.type ∈ linkTypes

theorem Leaves.eq_of_id {other : Edge} (leaves : Leaves node edge) (leaves' : Leaves node other)
    (same : edge.id = other.id) : edge.type = other.type ∧ edge.target = other.target := by
  rw [leaves.id, leaves'.id, leaves.source, leaves'.source] at same
  exact derivedId_source_inj (isDashless_of_mem_linkTypes leaves.type)
    (isDashless_of_mem_linkTypes leaves'.type) same

/-- The edges of all links of a document, in the order of the links. -/
def linkedEdges (node : Node) (body : List Char) : List Edge :=
  (wikiLinks body).flatMap (wikiLinkEdges node) ++ (pathLinks body).flatMap (pathLinkEdges node)

/-- Each edge of a link has the link's target, and its types are the given ones and, across
skills, the one of a dependency. -/
theorem mem_linkEdges {types : List String} {label : Option String} :
    edge ∈ linkEdges node types target label ↔
      ∃ type, (type ∈ types ∨ type = "DEPENDS_ON" ∧ skillOf target ≠ node.skill) ∧
        edge = { Edge.between node.id type target with
          properties := (label.map fun label => ("label", Property.string label)).toList } := by
  rw [linkEdges, List.mem_map]
  refine exists_congr fun type => and_congr ?_ eq_comm
  split
  · rename_i own
    simp [own]
  · rename_i foreign
    simp [foreign]

theorem leaves_of_mem_linkEdges {types : List String} {label : Option String}
    (known : types ⊆ linkTypes) (member : edge ∈ linkEdges node types target label) :
    Leaves node edge := by
  obtain ⟨type, written | ⟨rfl, _⟩, rfl⟩ := mem_linkEdges.mp member
  · exact ⟨rfl, rfl, known written⟩
  · exact ⟨rfl, rfl, show "DEPENDS_ON" ∈ linkTypes by decide⟩

/-- Edges say that a target is depended on just if it belongs to another skill and is linked to. -/
def Crosses (node : Node) (offered : List Edge) : Prop :=
  ∀ target, (∃ edge ∈ offered, edge.type = "DEPENDS_ON" ∧ edge.target = target) ↔
    skillOf target ≠ node.skill ∧
      ∃ edge ∈ offered, edge.type ∈ ["LINKS_TO", "REFERENCES"] ∧ edge.target = target

theorem Crosses.flatMap {α : Type} {links : List α} {edgesOf : α → List Edge}
    (each : ∀ link ∈ links, Crosses node (edgesOf link)) :
    Crosses node (links.flatMap edgesOf) := by
  intro target
  have shared (p : Edge → Prop) : (∃ edge ∈ links.flatMap edgesOf, p edge) ↔
      ∃ link ∈ links, ∃ edge ∈ edgesOf link, p edge := by
    simp only [List.mem_flatMap]
    exact ⟨fun ⟨edge, ⟨link, member, inside⟩, holds⟩ => ⟨link, member, edge, inside, holds⟩,
      fun ⟨link, member, edge, inside, holds⟩ => ⟨edge, ⟨link, member, inside⟩, holds⟩⟩
  rw [shared, shared]
  constructor
  · rintro ⟨link, member, depends⟩
    obtain ⟨foreign, linked⟩ := (each link member target).mp depends
    exact ⟨foreign, link, member, linked⟩
  · rintro ⟨foreign, link, member, linked⟩
    exact ⟨link, member, (each link member target).mpr ⟨foreign, linked⟩⟩

theorem Crosses.append {first second : List Edge} (crosses : Crosses node first)
    (crosses' : Crosses node second) : Crosses node (first ++ second) := by
  have joined : Crosses node ([first, second].flatMap fun offered => offered) :=
    Crosses.flatMap (by simpa using ⟨crosses, crosses'⟩)
  simpa using joined

theorem exists_mem_linkEdges {types : List String} {label : Option String} {other : String}
    {p : String → Prop} :
    (∃ edge ∈ linkEdges node types target label, p edge.type ∧ edge.target = other) ↔
      target = other ∧
        ∃ type, (type ∈ types ∨ type = "DEPENDS_ON" ∧ skillOf target ≠ node.skill) ∧ p type := by
  constructor
  · rintro ⟨edge, member, holds, rfl⟩
    obtain ⟨type, written, rfl⟩ := mem_linkEdges.mp member
    exact ⟨rfl, type, written, holds⟩
  · rintro ⟨rfl, type, written, holds⟩
    exact ⟨_, mem_linkEdges.mpr ⟨type, written, rfl⟩, holds, rfl⟩

theorem crosses_linkEdges {types : List String} {label : Option String}
    (linked : ∃ type ∈ types, type ∈ ["LINKS_TO", "REFERENCES"]) (plain : "DEPENDS_ON" ∉ types) :
    Crosses node (linkEdges node types target label) := by
  intro other
  rw [exists_mem_linkEdges (p := (· = "DEPENDS_ON")),
    exists_mem_linkEdges (p := (· ∈ ["LINKS_TO", "REFERENCES"]))]
  obtain ⟨type, written, link⟩ := linked
  constructor
  · rintro ⟨rfl, _, listed | ⟨_, foreign⟩, rfl⟩
    · exact absurd listed plain
    · exact ⟨foreign, rfl, type, .inl written, link⟩
  · rintro ⟨foreign, rfl, _⟩
    exact ⟨rfl, "DEPENDS_ON", .inr ⟨rfl, foreign⟩, rfl⟩

theorem crosses_linkedEdges (node : Node) (body : List Char) :
    Crosses node (linkedEdges node body) := by
  refine .append (.flatMap fun link _ => ?_) (.flatMap fun link _ => ?_)
  · unfold wikiLinkEdges
    refine crosses_linkEdges ⟨"LINKS_TO", ?_, by decide⟩ ?_
    · split <;> decide
    · split <;> decide
  · unfold pathLinkEdges
    split
    · intro target
      simp
    · exact crosses_linkEdges ⟨"REFERENCES", by decide, by decide⟩ (by decide)

theorem leaves_of_mem_linkedEdges (member : edge ∈ linkedEdges node body) : Leaves node edge := by
  rcases List.mem_append.mp member with wiki | path
  · obtain ⟨link, _, member⟩ := List.mem_flatMap.mp wiki
    refine leaves_of_mem_linkEdges ?_ member
    split <;> decide
  · obtain ⟨link, _, member⟩ := List.mem_flatMap.mp path
    unfold pathLinkEdges at member
    split at member
    · contradiction
    · exact leaves_of_mem_linkEdges (by decide) member

theorem leaves_of_mem_edges (member : edge ∈ edges node body) : Leaves node edge :=
  leaves_of_mem_linkedEdges ((Ordered.distinctBy_sublist _ _).subset member)

/-- Of every edge that a link offers there is one with the same ends and type. -/
theorem exists_mem_edges_iff {p : String → Prop} :
    (∃ edge ∈ edges node body, p edge.type ∧ edge.target = target) ↔
      ∃ edge ∈ linkedEdges node body, p edge.type ∧ edge.target = target := by
  constructor
  · rintro ⟨edge, member, found⟩
    exact ⟨edge, (Ordered.distinctBy_sublist _ _).subset member, found⟩
  · rintro ⟨edge, member, holds, rfl⟩
    have first : ∃ kept ∈ edges node body, decide (kept.id = edge.id) = true :=
      Ordered.exists_mem_distinctBy (by simp) member
    obtain ⟨kept, stays, same⟩ := first
    have leaves := leaves_of_mem_edges stays
    obtain ⟨types, targets⟩ :=
      leaves.eq_of_id (leaves_of_mem_linkedEdges member) (of_decide_eq_true same)
    exact ⟨kept, stays, types ▸ holds, targets⟩

/-- A document depends on a target just if it links to it and the target is in another skill. -/
theorem crosses_edges (node : Node) (body : List Char) : Crosses node (edges node body) := by
  intro target
  rw [exists_mem_edges_iff (p := (· = "DEPENDS_ON")),
    exists_mem_edges_iff (p := (· ∈ ["LINKS_TO", "REFERENCES"]))]
  exact crosses_linkedEdges node body target

end DocumentGraph.Document
