import DocumentGraph.Proofs.Query.Site
import Mathlib.Data.List.Perm.Basic

namespace DocumentGraph.Query

/-! Patterns read from their other end.

A pattern is a chain of nodes with a relationship between any two neighbours.  Its reversal has
the same nodes and the same relationships in reverse order, and every relationship runs the
other way.  So it introduces the same names, and a check accepts both or neither.
-/

section Turn

variable {ν η α : Type} (node : η → ν) (turned : η → ν → η)

/-- Goes along a chain of links, each of which leads to a node, and leaves behind the links that
lead back.  `behind` are the links back from `start`. -/
def turnOnto : ν → List η → List η → ν × List η
  | start, behind, [] => (start, behind)
  | start, behind, link :: links => turnOnto (node link) (turned link start :: behind) links

theorem turnOnto_nodes (leads : ∀ link start, node (turned link start) = start) (start : ν)
    (behind links : List η) :
    (turnOnto node turned start behind links).1 ::
        (turnOnto node turned start behind links).2.map node =
      (links.map node).reverse ++ start :: behind.map node := by
  induction links generalizing start behind with
  | nil => rfl
  | cons link links ih => simp [turnOnto, ih, leads]

theorem turnOnto_links {carried kept : η → α}
    (keeps : ∀ link start, carried (turned link start) = kept link)
    (start : ν) (behind links : List η) :
    (turnOnto node turned start behind links).2.map carried =
      (links.map kept).reverse ++ behind.map carried := by
  induction links generalizing start behind with
  | nil => rfl
  | cons link links ih => simp [turnOnto, ih, keeps]

/-- Going back along a chain that was turned around turns it around again. -/
theorem turnOnto_turnOnto (leads : ∀ link start, node (turned link start) = start)
    (restores : ∀ link start, turned (turned link start) (node link) = link) (start : ν)
    (behind links : List η) :
    turnOnto node turned (turnOnto node turned start behind links).1 []
        (turnOnto node turned start behind links).2 =
      turnOnto node turned start links behind := by
  induction links generalizing start behind with
  | nil => rfl
  | cons link links ih => rw [turnOnto, ih, turnOnto, leads, restores]

end Turn

def Direction.turned : Direction → Direction
  | forward => backward
  | backward => forward
  | either => either

def RelationshipPattern.turned (relationship : RelationshipPattern) : RelationshipPattern :=
  { relationship with direction := relationship.direction.turned }

/-- The hop back to a node. -/
def Hop.turned (hop : Hop) (start : NodePattern) : Hop where
  relationship := hop.relationship.turned
  node := start

theorem RelationshipPattern.turned_turned (relationship : RelationshipPattern) :
    relationship.turned.turned = relationship := by
  obtain ⟨binder, type, direction, range, position⟩ := relationship
  cases direction <;> rfl

theorem Hop.turned_turned (hop : Hop) (start : NodePattern) :
    (hop.turned start).turned hop.node = hop := by
  rw [turned, turned, hop.relationship.turned_turned]

namespace Pattern

def nodes (pattern : Pattern) : List NodePattern :=
  pattern.start :: pattern.hops.map Hop.node

def relationships (pattern : Pattern) : List RelationshipPattern :=
  pattern.hops.map Hop.relationship

/-- The variables of the relationships with a range. -/
def pathNames (pattern : Pattern) : List String :=
  pattern.relationships.filterMap fun relationship =>
    if relationship.range.isSome then relationship.binder.map Identifier.name else none

/-- The pattern from its end, and then `behind`. -/
def turnedOnto (behind : List Hop) (pattern : Pattern) : Pattern :=
  let chain := turnOnto Hop.node Hop.turned pattern.start behind pattern.hops
  { start := chain.1, hops := chain.2 }

def reversed (pattern : Pattern) : Pattern :=
  pattern.turnedOnto []

theorem nodes_reversed (pattern : Pattern) : pattern.reversed.nodes = pattern.nodes.reverse := by
  have turned := turnOnto_nodes Hop.node Hop.turned (fun _ _ => rfl) pattern.start [] pattern.hops
  exact turned.trans (by rw [nodes, List.reverse_cons]; rfl)

theorem relationships_reversed (pattern : Pattern) : pattern.reversed.relationships =
    (pattern.relationships.map RelationshipPattern.turned).reverse := by
  have turned := turnOnto_links Hop.node Hop.turned
    (show ∀ (hop : Hop) start, (hop.turned start).relationship = hop.relationship.turned from
      fun _ _ => rfl) pattern.start [] pattern.hops
  exact turned.trans (by rw [relationships, List.map_map, List.map_nil, List.append_nil]; rfl)

theorem reversed_reversed (pattern : Pattern) : pattern.reversed.reversed = pattern := by
  have turned := turnOnto_turnOnto Hop.node Hop.turned (fun _ _ => rfl)
    (fun hop start => hop.turned_turned start) pattern.start [] pattern.hops
  rw [reversed, turnedOnto]
  simp only [reversed, turnedOnto, turned, turnOnto]

theorem sites_perm (pattern : Pattern) : pattern.sites.Perm
    (pattern.nodes.map Site.node ++ pattern.relationships.map Site.relationship) := by
  have hops := List.map_append_flatMap_perm pattern.hops
    (fun hop => Site.relationship hop.relationship) (fun hop => [Site.node hop.node])
  rw [← List.map_eq_flatMap] at hops
  rw [nodes, relationships, List.map_cons, List.map_map, List.map_map]
  exact (hops.symm.trans List.perm_append_comm).cons _

/-- The reversal asks for the same labels and types and introduces the same names. -/
theorem sites_reversed (pattern : Pattern) :
    (pattern.reversed.sites.map fun site => (site.introduced?, site.known)).Perm
      (pattern.sites.map fun site => (site.introduced?, site.known)) := by
  let asked (site : Site) : Option (String × Role) × Bool := (site.introduced?, site.known)
  have nodes : pattern.reversed.nodes.Perm pattern.nodes := by
    rw [nodes_reversed]
    exact List.reverse_perm _
  have relationships : pattern.reversed.relationships.Perm
      (pattern.relationships.map RelationshipPattern.turned) := by
    rw [relationships_reversed]
    exact List.reverse_perm _
  have turned : ((pattern.relationships.map RelationshipPattern.turned).map Site.relationship).map
      asked = (pattern.relationships.map Site.relationship).map asked := by
    rw [List.map_map, List.map_map, List.map_map]
    exact List.map_congr_left fun _ _ => rfl
  refine (pattern.reversed.sites_perm.map asked).trans (.trans ?_ (pattern.sites_perm.map asked).symm)
  rw [List.map_append, List.map_append, ← turned]
  exact ((nodes.map _).map _).append ((relationships.map _).map _)

theorem introduced_reversed (pattern : Pattern) :
    (pattern.reversed.sites.filterMap Site.introduced?).Perm
      (pattern.sites.filterMap Site.introduced?) := by
  have names := pattern.sites_reversed.filterMap Prod.fst
  rw [List.filterMap_map, List.filterMap_map] at names
  exact names

theorem known_reversed {pattern : Pattern} (known : ∀ site ∈ pattern.sites, site.known = true) :
    ∀ site ∈ pattern.reversed.sites, site.known = true := by
  intro site member
  have asked := pattern.sites_reversed.mem_iff.mp (List.mem_map_of_mem member)
  obtain ⟨other, inSites, same⟩ := List.mem_map.mp asked
  rw [← (Prod.mk.inj same).2]
  exact known other inSites

end Pattern

theorem sites_singleton (pattern : Pattern) : sites [pattern] = pattern.sites :=
  List.append_nil _

/-- A query with one pattern passes the check in either direction. -/
theorem check_reversed {query : DocumentGraph.Query} (accepted : query.check = .ok ())
    {pattern : Pattern} (single : query.patterns = [pattern]) :
    ({ query with patterns := [pattern.reversed] } : DocumentGraph.Query).check = .ok () := by
  obtain ⟨consistent, used⟩ := check_iff_consistent.mp accepted
  rw [single, sites_singleton] at consistent used
  rw [check_iff_consistent, sites_singleton]
  refine ⟨consistent.perm pattern.introduced_reversed.symm (Pattern.known_reversed consistent.known),
    fun identifier member => ?_⟩
  obtain ⟨role, introduced⟩ := used identifier member
  exact ⟨role, pattern.introduced_reversed.mem_iff.mpr introduced⟩

end DocumentGraph.Query
