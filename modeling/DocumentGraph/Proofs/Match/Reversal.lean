import DocumentGraph.Proofs.Match.Valuation
import DocumentGraph.Proofs.Query.Reversal
import Mathlib.Data.List.Pairwise

namespace DocumentGraph

open Match (Bindings)
open Query (Direction Hop HopRange Identifier NodePattern Pattern RelationshipPattern Role Site)

/-! Matches read from their other end.

The crossings of a hop, reversed and each turned around, lead back.  They are as many, and they
visit the same nodes, so a choice matches a pattern exactly when its reversal matches the
reversed pattern.  Both bind the same, except that a relationship crossed more than once stands
for the last edge crossed, which is another one on the way back.
-/

namespace Match

def Crossing.turned (crossing : Crossing) : Crossing :=
  { crossing with outward := !crossing.outward }

namespace Crossing

theorem turned_turned (crossing : Crossing) : crossing.turned.turned = crossing := by
  rw [turned, turned, Bool.not_not]

theorem departure_turned (crossing : Crossing) : crossing.turned.departure = crossing.arrival := by
  obtain ⟨edge, outward⟩ := crossing
  cases outward <;> rfl

theorem arrival_turned (crossing : Crossing) : crossing.turned.arrival = crossing.departure := by
  obtain ⟨edge, outward⟩ := crossing
  cases outward <;> rfl

theorem Runs.turned {crossing : Crossing} {direction : Direction}
    (runs : crossing.Runs direction) : crossing.turned.Runs direction.turned := by
  cases direction with
  | forward => simpa [Runs, Crossing.turned, Direction.turned] using runs
  | backward => simpa [Runs, Crossing.turned, Direction.turned] using runs
  | either => trivial

end Crossing

/-- The crossings back, the last one first. -/
def wayBack (crossings : List Crossing) : List Crossing :=
  (crossings.map Crossing.turned).reverse

variable {departure arrival : String} {crossings : List Crossing} {crossing : Crossing}

theorem wayBack_wayBack (crossings : List Crossing) : wayBack (wayBack crossings) = crossings := by
  simp [wayBack, Function.comp_def, Crossing.turned_turned]

theorem mem_wayBack : crossing ∈ wayBack crossings ↔ crossing.turned ∈ crossings := by
  simp only [wayBack, List.mem_reverse, List.mem_map]
  constructor
  · rintro ⟨other, member, rfl⟩
    rwa [Crossing.turned_turned]
  · intro member
    exact ⟨crossing.turned, member, crossing.turned_turned⟩

theorem joined_wayBack (joined : Joined departure crossings arrival) :
    Joined arrival (wayBack crossings) departure := by
  induction crossings generalizing departure with
  | nil => exact Eq.symm joined
  | cons crossing rest ih =>
      obtain ⟨departs, onward⟩ := joined
      have back := ih onward
      rw [← crossing.departure_turned] at back
      have turned : wayBack (crossing :: rest) = wayBack rest ++ [crossing.turned] := by
        simp [wayBack]
      rw [turned, joined_concat_iff]
      exact ⟨back, crossing.arrival_turned.trans departs⟩

/-- What is passed on the way is departed from next. -/
theorem departures_of_joined (joined : Joined departure crossings arrival) :
    departure :: crossings.map Crossing.arrival =
      crossings.map Crossing.departure ++ [arrival] := by
  induction crossings generalizing departure with
  | nil => exact congrArg (fun id => [id]) joined
  | cons crossing rest ih =>
      obtain ⟨departs, onward⟩ := joined
      rw [List.map_cons, ih onward, List.map_cons, departs, List.cons_append]

theorem visited_wayBack {source target : Node} (joined : Joined source.id crossings target.id) :
    visited target (wayBack crossings) = (visited source crossings).reverse := by
  have arrivals : (wayBack crossings).map Crossing.arrival =
      (crossings.map Crossing.departure).reverse := by
    simp [wayBack, Function.comp_def, Crossing.arrival_turned]
  rw [visited, visited, departures_of_joined joined, arrivals, List.reverse_append]
  rfl

/-- The choice for the hop back to a node. -/
def HopChoice.turned (choice : HopChoice) (start : Node) : HopChoice where
  crossings := wayBack choice.crossings
  node := start

theorem HopChoice.turned_turned (choice : HopChoice) (start : Node) :
    (choice.turned start).turned choice.node = choice := by
  rw [turned, turned, wayBack_wayBack]

namespace PatternChoice

def nodes (choice : PatternChoice) : List Node :=
  choice.start :: choice.hops.map HopChoice.node

/-- The crossings of every hop. -/
def legs (choice : PatternChoice) : List (List Crossing) :=
  choice.hops.map HopChoice.crossings

/-- The choice from its end, and then `behind`. -/
def turnedOnto (behind : List HopChoice) (choice : PatternChoice) : PatternChoice :=
  let chain := Query.turnOnto HopChoice.node HopChoice.turned choice.start behind choice.hops
  { start := chain.1, hops := chain.2 }

def reversed (choice : PatternChoice) : PatternChoice :=
  choice.turnedOnto []

theorem nodes_reversed (choice : PatternChoice) : choice.reversed.nodes = choice.nodes.reverse := by
  have turned := Query.turnOnto_nodes HopChoice.node HopChoice.turned (fun _ _ => rfl)
    choice.start [] choice.hops
  exact turned.trans (by rw [nodes, List.reverse_cons]; rfl)

theorem legs_reversed (choice : PatternChoice) :
    choice.reversed.legs = (choice.legs.map wayBack).reverse := by
  have turned := Query.turnOnto_links HopChoice.node HopChoice.turned
    (show ∀ (hop : HopChoice) start, (hop.turned start).crossings = wayBack hop.crossings from
      fun _ _ => rfl) choice.start [] choice.hops
  exact turned.trans (by rw [legs, List.map_map, List.map_nil, List.append_nil]; rfl)

theorem reversed_reversed (choice : PatternChoice) : choice.reversed.reversed = choice := by
  have turned := Query.turnOnto_turnOnto HopChoice.node HopChoice.turned (fun _ _ => rfl)
    (fun hop start => hop.turned_turned start) choice.start [] choice.hops
  simp only [reversed, turnedOnto, turned, Query.turnOnto]

end PatternChoice

variable {graph : Graph} {maxDepth : Nat} {source : Node} {hop : Hop} {choice : HopChoice}

theorem InRange.turned {target : Node} {range : Option HopRange}
    (inRange : InRange maxDepth source crossings range)
    (joined : Joined source.id crossings target.id) :
    InRange maxDepth target (wayBack crossings) range := by
  have length : (wayBack crossings).length = crossings.length := by simp [wayBack]
  cases range with
  | none => exact length.trans inRange
  | some range =>
      obtain ⟨low, high, nodup⟩ := inRange
      refine ⟨low.trans_eq length.symm, length.trans_le high, ?_⟩
      rw [visited_wayBack joined]
      exact List.nodup_reverse.mpr nodup

theorem FitsHop.turned (fits : FitsHop graph maxDepth source hop choice)
    (member : source ∈ graph.nodes.toList) {start : NodePattern}
    (satisfied : Satisfies source start) :
    FitsHop graph maxDepth choice.node (hop.turned start) (choice.turned source) where
  leads := {
    stored := fun crossing crossed => fits.leads.stored crossing.turned (mem_wayBack.mp crossed)
    typed := fun crossing crossed => fits.leads.typed crossing.turned (mem_wayBack.mp crossed)
    directed := fun crossing crossed => by
      have runs := (fits.leads.directed crossing.turned (mem_wayBack.mp crossed)).turned
      rwa [Crossing.turned_turned] at runs
    joined := joined_wayBack fits.leads.joined
    node := member }
  inRange := fits.inRange.turned fits.leads.joined
  satisfied := satisfied

/-- Going along the hops, those behind fit on the way back. -/
theorem FitsHops.turnedOnto {start : NodePattern} {hops behind : List Hop}
    {choices back : List HopChoice} (member : source ∈ graph.nodes.toList)
    (satisfied : Satisfies source start) (onward : FitsHops graph maxDepth source hops choices)
    (backward : FitsHops graph maxDepth source behind back) :
    FitsPattern graph maxDepth (Pattern.turnedOnto behind { start, hops })
      (PatternChoice.turnedOnto back { start := source, hops := choices }) := by
  induction hops generalizing start source behind choices back with
  | nil =>
      cases choices with
      | nil => exact ⟨member, satisfied, backward⟩
      | cons choice choices => contradiction
  | cons hop hops ih =>
      cases choices with
      | nil => contradiction
      | cons choice choices =>
          obtain ⟨first, rest⟩ := onward
          have further : FitsHops graph maxDepth choice.node (hop.turned start :: behind)
              (choice.turned source :: back) := ⟨first.turned member satisfied, backward⟩
          have fitted := ih first.leads.node first.satisfied rest further
          exact fitted

theorem FitsPattern.reversed {pattern : Pattern} {choice : PatternChoice}
    (fits : FitsPattern graph maxDepth pattern choice) :
    FitsPattern graph maxDepth pattern.reversed choice.reversed :=
  FitsHops.turnedOnto fits.start fits.satisfied fits.hops trivial

theorem FitsHops.length_eq {hops : List Hop} {choices : List HopChoice}
    (fits : FitsHops graph maxDepth source hops choices) : hops.length = choices.length := by
  induction hops generalizing source choices with
  | nil =>
      cases choices with
      | nil => rfl
      | cons choice choices => contradiction
  | cons hop hops ih =>
      cases choices with
      | nil => contradiction
      | cons choice choices => rw [List.length_cons, List.length_cons, ih fits.2]

theorem FitsHops.exists_fits {hops : List Hop} {choices : List HopChoice}
    (fits : FitsHops graph maxDepth source hops choices) (member : (hop, choice) ∈ hops.zip choices) :
    ∃ source, FitsHop graph maxDepth source hop choice := by
  induction hops generalizing source choices with
  | nil => contradiction
  | cons first hops ih =>
      cases choices with
      | nil => contradiction
      | cons chosen choices =>
          rw [List.zip_cons_cons, List.mem_cons] at member
          rcases member with same | later
          · obtain ⟨rfl, rfl⟩ := Prod.mk.inj same
            exact ⟨source, fits.1⟩
          · exact ih fits.2 later

/-- What a leg binds to the variable of its relationship. -/
def boundEdge (relationship : RelationshipPattern) (crossings : List Crossing) :
    List (String × Element) :=
  crossings.getLast?.toList.flatMap fun last => named relationship.binder (.edge last.edge)

/-- What a node binds to the variable of its pattern. -/
def boundNode (pattern : NodePattern) (node : Node) : List (String × Element) :=
  named pattern.binder (.node node)

section Bound

variable {pattern : Pattern} {choice : PatternChoice} {pair : String × Element}

theorem bound_perm (pattern : Pattern) (choice : PatternChoice) :
    (choice.bound pattern).Perm
      ((pattern.nodes.zip choice.nodes).flatMap (Function.uncurry boundNode) ++
        (pattern.relationships.zip choice.legs).flatMap (Function.uncurry boundEdge)) := by
  have hops := List.flatMap_append_perm (pattern.hops.zip choice.hops)
    (fun pair => boundEdge pair.1.relationship pair.2.crossings)
    (fun pair => boundNode pair.1.node pair.2.node)
  rw [Pattern.relationships, PatternChoice.legs, Pattern.nodes, PatternChoice.nodes,
    List.zip_cons_cons, List.flatMap_cons, List.zip_map, List.zip_map, List.flatMap_map,
    List.flatMap_map, List.append_assoc]
  exact (hops.symm.trans List.perm_append_comm).append_left _

theorem zip_reverse_perm {α β : Type} {left : List α} {right : List β}
    (length : left.length = right.length) : (left.reverse.zip right.reverse).Perm (left.zip right) := by
  rw [List.zip_eq_zipWith, ← List.reverse_zipWith length, ← List.zip_eq_zipWith]
  exact List.reverse_perm _

theorem boundNodes_reversed (fits : FitsPattern graph maxDepth pattern choice) :
    ((pattern.reversed.nodes.zip choice.reversed.nodes).flatMap (Function.uncurry boundNode)).Perm
      ((pattern.nodes.zip choice.nodes).flatMap (Function.uncurry boundNode)) := by
  have length : pattern.nodes.length = choice.nodes.length := by
    simp [Pattern.nodes, PatternChoice.nodes, fits.hops.length_eq]
  rw [pattern.nodes_reversed, choice.nodes_reversed]
  exact (zip_reverse_perm length).flatMap_right _

theorem boundEdges_reversed (fits : FitsPattern graph maxDepth pattern choice) :
    ((pattern.reversed.relationships.zip choice.reversed.legs).flatMap
        (Function.uncurry boundEdge)).Perm
      ((pattern.relationships.zip choice.legs).flatMap
        fun (relationship, leg) => boundEdge relationship (wayBack leg)) := by
  have length : (pattern.relationships.map RelationshipPattern.turned).length =
      (choice.legs.map wayBack).length := by
    simp [Pattern.relationships, PatternChoice.legs, fits.hops.length_eq]
  rw [pattern.relationships_reversed, choice.legs_reversed]
  refine ((zip_reverse_perm length).flatMap_right _).trans ?_
  rw [List.zip_map, List.flatMap_map]
  exact List.Perm.refl _

/-- The pair binds a node, or a variable that is none of the names. -/
def Spared (names : List String) (pair : String × Element) : Prop :=
  (∃ node, pair.2 = .node node) ∨ pair.1 ∉ names

theorem FitsPattern.inRange (fits : FitsPattern graph maxDepth pattern choice)
    {relationship : RelationshipPattern} {leg : List Crossing}
    (member : (relationship, leg) ∈ pattern.relationships.zip choice.legs) :
    ∃ source, InRange maxDepth source leg relationship.range := by
  rw [Pattern.relationships, PatternChoice.legs, List.zip_map, List.mem_map] at member
  obtain ⟨⟨hop, chosen⟩, inside, same⟩ := member
  obtain ⟨rfl, rfl⟩ := Prod.mk.inj same
  obtain ⟨source, fitting⟩ := fits.hops.exists_fits inside
  exact ⟨source, fitting.inRange⟩

/-- A relationship crossed once is bound to the same edge on the way back; one with a range binds
a variable that is left out. -/
theorem mem_boundEdge_wayBack (fits : FitsPattern graph maxDepth pattern choice)
    (spared : Spared pattern.pathNames pair) {relationship : RelationshipPattern}
    {leg : List Crossing}
    (member : (relationship, leg) ∈ pattern.relationships.zip choice.legs) :
    pair ∈ boundEdge relationship (wayBack leg) ↔ pair ∈ boundEdge relationship leg := by
  obtain ⟨source, inRange⟩ := fits.inRange member
  cases ranged : relationship.range with
  | none =>
      rw [ranged] at inRange
      obtain ⟨crossing, rfl⟩ := List.length_eq_one_iff.mp inRange
      exact Iff.rfl
  | some range =>
      have unbound : ∀ crossings, pair ∉ boundEdge relationship crossings := by
        intro crossings inside
        obtain ⟨last, _, inNamed⟩ := List.mem_flatMap.mp inside
        obtain ⟨identifier, written, rfl⟩ := List.mem_map.mp inNamed
        rcases spared with ⟨_, impossible⟩ | outside
        · contradiction
        · refine outside (List.mem_filterMap.mpr ⟨relationship, (List.of_mem_zip member).1, ?_⟩)
          rw [ranged, Option.mem_toList.mp written]
          rfl
      exact iff_of_false (unbound _) (unbound _)

theorem mem_bound_reversed (fits : FitsPattern graph maxDepth pattern choice)
    (spared : Spared pattern.pathNames pair) :
    pair ∈ choice.reversed.bound pattern.reversed ↔ pair ∈ choice.bound pattern := by
  rw [(bound_perm _ _).mem_iff, (bound_perm _ _).mem_iff, List.mem_append, List.mem_append,
    (boundNodes_reversed fits).mem_iff, (boundEdges_reversed fits).mem_iff]
  refine or_congr_right (List.mem_flatMap.trans (.trans ?_ List.mem_flatMap.symm))
  exact exists_congr fun leg => and_congr_right fun member =>
    mem_boundEdge_wayBack fits spared member

/-- The name and the role of what is bound. -/
def introducedBy (pair : String × Element) : String × Role :=
  (pair.1, pair.2.role)

theorem introducedBy_named (binder : Option Identifier) (element : Element) :
    (named binder element).map introducedBy =
      (binder.map fun identifier => (identifier.name, element.role)).toList := by
  cases binder <;> rfl

theorem introducedBy_boundEdge_sublist (relationship : RelationshipPattern)
    (leg : List Crossing) : ((boundEdge relationship leg).map introducedBy).Sublist
      (Site.relationship relationship).introduced?.toList := by
  unfold boundEdge
  cases leg.getLast? with
  | none => exact List.nil_sublist _
  | some last =>
      rw [Option.toList_some, List.flatMap_singleton, introducedBy_named]
      exact List.Sublist.refl _

/-- Every pair is bound at a site of its own. -/
theorem introducedBy_boundByHops_sublist (hops : List Hop) (choices : List HopChoice) :
    ((boundByHops hops choices).map introducedBy).Sublist
      ((hops.flatMap Hop.sites).filterMap Site.introduced?) := by
  induction hops generalizing choices with
  | nil => exact List.Sublist.refl []
  | cons hop hops ih =>
      cases choices with
      | nil => exact List.nil_sublist _
      | cons choice choices =>
          have first : ((choice.bound hop).map introducedBy).Sublist
              (hop.sites.filterMap Site.introduced?) := by
            have edge := introducedBy_boundEdge_sublist hop.relationship choice.crossings
            have node := introducedBy_named hop.node.binder (.node choice.node)
            have sites : hop.sites.filterMap Site.introduced? =
                (Site.relationship hop.relationship).introduced?.toList ++
                  (Site.node hop.node).introduced?.toList := by
              simp [Hop.sites, List.filterMap_eq_flatMap_toList]
            have bound : choice.bound hop = boundEdge hop.relationship choice.crossings ++
                named hop.node.binder (.node choice.node) := rfl
            rw [sites, bound, List.map_append, node]
            exact edge.append_right _
          rw [List.flatMap_cons, List.filterMap_append, boundByHops, List.zip_cons_cons,
            List.flatMap_cons, List.map_append]
          exact first.append (ih choices)

theorem introducedBy_bound_sublist (pattern : Pattern) (choice : PatternChoice) :
    ((choice.bound pattern).map introducedBy).Sublist
      (pattern.sites.filterMap Site.introduced?) := by
  have start := introducedBy_named pattern.start.binder (.node choice.start)
  have hops := introducedBy_boundByHops_sublist pattern.hops choice.hops
  rw [Pattern.sites, List.filterMap_eq_flatMap_toList, List.flatMap_cons,
    ← List.filterMap_eq_flatMap_toList, PatternChoice.bound, List.map_append, start]
  exact hops.append_left _

/-- Names that are bound more than once are bound to nodes. -/
theorem nodes_of_ne (consistent : Query.Consistent pattern.sites) {name : String}
    {left right : Element} (inLeft : (name, left) ∈ choice.bound pattern)
    (inRight : (name, right) ∈ choice.bound pattern) (different : left ≠ right) :
    left.role = .node ∧ right.role = .node := by
  have apart : (choice.bound pattern).Pairwise fun left right =>
      Query.Compatible (introducedBy left) (introducedBy right) :=
    List.pairwise_map.mp (consistent.compatible.sublist (introducedBy_bound_sublist _ _))
  have symm : Std.Symm fun left right =>
      Query.Compatible (introducedBy left) (introducedBy right) := ⟨fun _ _ => Query.Compatible.symm⟩
  exact apart.forall inLeft inRight (fun same => different (Prod.mk.inj same).2) rfl

theorem agree_reversed (consistent : Query.Consistent pattern.reversed.sites)
    (fits : FitsPattern graph maxDepth pattern choice) (agree : Agree (choice.bound pattern)) :
    Agree (choice.reversed.bound pattern.reversed) := by
  intro name left right inLeft inRight
  by_contra different
  obtain ⟨leftNode, rightNode⟩ := nodes_of_ne consistent inLeft inRight different
  have kept : ∀ element : Element, element.role = .node →
      (name, element) ∈ choice.reversed.bound pattern.reversed →
      (name, element) ∈ choice.bound pattern := by
    intro element isNode bound
    cases element with
    | node node => exact (mem_bound_reversed fits (.inl ⟨node, rfl⟩)).mp bound
    | edge edge => contradiction
  exact different (agree name left right (kept left leftNode inLeft) (kept right rightNode inRight))

theorem valuationExcept_reversed (fits : FitsPattern graph maxDepth pattern choice)
    (agree : Agree (choice.bound pattern))
    (agree' : Agree (choice.reversed.bound pattern.reversed)) :
    (store [] (choice.reversed.bound pattern.reversed)).valuationExcept pattern.pathNames =
      (store [] (choice.bound pattern)).valuationExcept pattern.pathNames := by
  funext name
  unfold Bindings.valuationExcept
  by_cases leftOut : name ∈ pattern.pathNames
  · rw [if_pos leftOut, if_pos leftOut]
  · rw [if_neg leftOut, if_neg leftOut]
    apply Option.ext
    intro element
    rw [valuation_store_iff agree, valuation_store_iff agree',
      mem_bound_reversed fits (.inr leftOut)]

end Bound

section Single

variable {pattern : Pattern} {choice : PatternChoice}

theorem bound_singleton (pattern : Pattern) (choice : PatternChoice) :
    bound [pattern] [choice] = choice.bound pattern :=
  List.append_nil _

theorem matches_singleton_iff {choices : List PatternChoice} :
    Matches graph maxDepth [pattern] choices ↔ ∃ choice, choices = [choice] ∧
      FitsPattern graph maxDepth pattern choice ∧ Agree (choice.bound pattern) := by
  constructor
  · rintro ⟨fits, agree⟩
    obtain ⟨choice, rest, fitting, none, rfl⟩ := List.forall₂_cons_left_iff.mp fits
    obtain rfl := List.forall₂_nil_left_iff.mp none
    rw [bound_singleton] at agree
    exact ⟨choice, rfl, fitting, agree⟩
  · rintro ⟨choice, rfl, fitting, agree⟩
    rw [← bound_singleton] at agree
    exact ⟨.cons fitting .nil, agree⟩

/-- A match is one from either end. -/
theorem Matches.reversed (consistent : Query.Consistent pattern.reversed.sites)
    {choices : List PatternChoice} (matched : Matches graph maxDepth [pattern] choices) :
    Matches graph maxDepth [pattern.reversed] (choices.map PatternChoice.reversed) := by
  obtain ⟨choice, rfl, fits, agree⟩ := matches_singleton_iff.mp matched
  exact matches_singleton_iff.mpr
    ⟨choice.reversed, rfl, fits.reversed, agree_reversed consistent fits agree⟩

theorem map_reversed_reversed (choices : List PatternChoice) :
    (choices.map PatternChoice.reversed).map PatternChoice.reversed = choices := by
  rw [List.map_map]
  exact (List.map_congr_left fun choice _ => choice.reversed_reversed).trans (List.map_id _)

theorem valuations_reversed_perm (maxDepth : Nat) (indexed : graph.Indexed)
    (consistent : Query.Consistent pattern.sites)
    (consistent' : Query.Consistent pattern.reversed.sites) {last final : Query.Scope}
    (accepted : Query.Scope.ofPatterns [pattern] = .ok last)
    (accepted' : Query.Scope.ofPatterns [pattern.reversed] = .ok final) :
    ((Match.patterns graph.snapshot maxDepth [pattern]).value.map
        (Bindings.valuationExcept pattern.pathNames)).Perm
      ((Match.patterns graph.snapshot maxDepth [pattern.reversed]).value.map
        (Bindings.valuationExcept pattern.pathNames)) := by
  refine patterns_perm indexed accepted accepted' (List.map PatternChoice.reversed)
    (List.map PatternChoice.reversed) ?_ ?_
  · intro choices matched
    have back := matched.reversed consistent'
    refine ⟨back, map_reversed_reversed choices, ?_⟩
    obtain ⟨choice, rfl, fits, agree⟩ := matches_singleton_iff.mp matched
    have except := valuationExcept_reversed fits agree (agree_reversed consistent' fits agree)
    rwa [← bound_singleton, ← bound_singleton] at except
  · intro choices matched
    rw [← pattern.reversed_reversed] at consistent ⊢
    exact ⟨matched.reversed consistent, map_reversed_reversed choices⟩

end Single

end Match

namespace Query

/-- A checked query with one pattern finds the same from either end of the pattern, apart from
what the variables of its relationships with a range stand for. -/
theorem valuationsExcept_perm_of_reversed (changes : List Graph.Change) (maxDepth : Nat)
    (query : Query) (accepted : query.check = .ok ()) (pattern : Pattern)
    (single : query.patterns = [pattern]) :
    let graph := (Graph.ofChanges changes).snapshot
    ({ query with patterns := [pattern.reversed] } : Query).check = .ok () ∧
    ((Match.patterns graph maxDepth [pattern]).value.map
        (Bindings.valuationExcept pattern.pathNames)).Perm
      ((Match.patterns graph maxDepth [pattern.reversed]).value.map
        (Bindings.valuationExcept pattern.pathNames)) := by
  intro graph
  have accepted' := check_reversed accepted single
  obtain ⟨consistent, _⟩ := check_iff_consistent.mp accepted
  obtain ⟨consistent', _⟩ := check_iff_consistent.mp accepted'
  rw [single] at consistent
  obtain ⟨last, introduced⟩ := Scope.exists_ofPatterns_iff.mpr consistent
  obtain ⟨final, introduced'⟩ := Scope.exists_ofPatterns_iff.mpr consistent'
  rw [sites_singleton] at consistent consistent'
  exact ⟨accepted', Match.valuations_reversed_perm maxDepth (Graph.indexed_ofChanges changes)
    consistent consistent' introduced introduced'⟩

/-- Two links to one node. -/
def meeting : List Graph.Change :=
  [.node { id := "x" }, .node { id := "y" }, .node { id := "z" },
    .edge { id := "x-y", type := "LINKS_TO", source := "x", target := "y" },
    .edge { id := "z-y", type := "LINKS_TO", source := "z", target := "y" }]

/-- `(a)-[r]->(b)<-[p*1..2]-(a)` -/
def roundTrip : Pattern :=
  let identifier (name : String) : Identifier := { name, position := {} }
  let node (name : String) : NodePattern := { binder := some (identifier name) }
  let link : RelationshipPattern := { binder := some (identifier "r"), direction := .forward }
  let path : RelationshipPattern :=
    { binder := some (identifier "p"), direction := .backward, range := some ⟨some 1, some 2⟩ }
  { start := node "a"
    hops := [{ relationship := link, node := node "b" }, { relationship := path, node := node "a" }] }

/-- `MATCH (a)-[r]->(b)<-[p*1..2]-(a) RETURN a` -/
def roundTrips : Query where
  patterns := [roundTrip]
  condition := none
  projection :=
    { distinct := false, items := [{ expression := .element { name := "a", position := {} } }] }

theorem valuationsExcept_perm_of_reversed_roundTrips : roundTrips.check = .ok () ∧
    roundTrips.patterns = [roundTrip] ∧ roundTrip.pathNames = ["p"] ∧
    (Match.patterns (Graph.ofChanges meeting).snapshot 3 [roundTrip.reversed]).value.length = 2 := by
  obtain ⟨_, same⟩ := valuationsExcept_perm_of_reversed meeting 3 roundTrips rfl roundTrip rfl
  have count := same.length_eq
  rw [List.length_map, List.length_map] at count
  exact ⟨rfl, rfl, rfl, count.symm.trans rfl⟩

end Query

end DocumentGraph
