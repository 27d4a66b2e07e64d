import DocumentGraph.Graph.Basic
import DocumentGraph.Match.Binding
import Mathlib.Data.List.Forall2

namespace DocumentGraph.Match

open Query (Direction Hop HopRange Identifier NodePattern Pattern RelationshipPattern)

/-! Matches, without a search.

A match chooses a node for every node position of the patterns and crossed edges for every
hop.  The relations of this module say which choices match, and what they bind.
-/

/-- An edge crossed from one of its ends to the other. -/
structure Crossing where
  edge : Edge
  /-- Whether it is crossed from its source to its target. -/
  outward : Bool
deriving DecidableEq

namespace Crossing

def departure (crossing : Crossing) : String :=
  if crossing.outward then crossing.edge.source else crossing.edge.target

def arrival (crossing : Crossing) : String :=
  if crossing.outward then crossing.edge.target else crossing.edge.source

/-- An edge that leaves the node before it is crossed outward, one that reaches it inward. -/
def Runs (crossing : Crossing) : Direction → Prop
  | .forward => crossing.outward = true
  | .backward => crossing.outward = false
  | .either => True

end Crossing

/-- What a match chooses for a hop: the edges crossed, and the node behind the last of them. -/
@[ext]
structure HopChoice where
  crossings : List Crossing
  node : Node
deriving DecidableEq

structure PatternChoice where
  start : Node
  hops : List HopChoice
deriving DecidableEq

/-- The node has the label and every property that the pattern asks for. -/
structure Satisfies (node : Node) (pattern : NodePattern) : Prop where
  label : ∀ label ∈ pattern.label, ∃ own ∈ node.labels, equalIgnoringCase own label.name
  properties : ∀ pair ∈ pattern.properties.getD [],
    (node.property pair.1).value.meets pair.2 = true

/-- The crossings lead from one id to another, each from where the one before it arrives. -/
def Joined : String → List Crossing → String → Prop
  | departure, [], arrival => departure = arrival
  | departure, crossing :: crossings, arrival =>
      crossing.departure = departure ∧ Joined crossing.arrival crossings arrival

def visited (source : Node) (crossings : List Crossing) : List String :=
  source.id :: crossings.map Crossing.arrival

/-- Without a range a hop crosses one edge.  With one it crosses at least one edge and no node
twice, and as many edges as the range allows. -/
def InRange (maxDepth : Nat) (source : Node) (crossings : List Crossing) :
    Option HopRange → Prop
  | none => crossings.length = 1
  | some range =>
      Nat.max 1 ((range.min.map UInt32.toNat).getD 0) ≤ crossings.length ∧
      crossings.length ≤ (range.max.map UInt32.toNat).getD maxDepth ∧
      (visited source crossings).Nodup

/-- The crossed edges are edges of the graph as a relationship asks for, and they lead from one
node to another. -/
structure Leads (graph : Graph) (relationship : RelationshipPattern) (source : Node)
    (choice : HopChoice) : Prop where
  stored : ∀ crossing ∈ choice.crossings, crossing.edge ∈ graph.edges.toList
  typed : ∀ crossing ∈ choice.crossings, ∀ type ∈ relationship.type,
    crossing.edge.type = type.name
  directed : ∀ crossing ∈ choice.crossings, crossing.Runs relationship.direction
  joined : Joined source.id choice.crossings choice.node.id
  node : choice.node ∈ graph.nodes.toList

structure FitsHop (graph : Graph) (maxDepth : Nat) (source : Node) (hop : Hop)
    (choice : HopChoice) : Prop where
  leads : Leads graph hop.relationship source choice
  inRange : InRange maxDepth source choice.crossings hop.relationship.range
  satisfied : Satisfies choice.node hop.node

/-- Every hop starts at the node that the hop before it chose. -/
def FitsHops (graph : Graph) (maxDepth : Nat) : Node → List Hop → List HopChoice → Prop
  | _, [], [] => True
  | source, hop :: hops, choice :: choices =>
      FitsHop graph maxDepth source hop choice ∧
        FitsHops graph maxDepth choice.node hops choices
  | _, _, _ => False

structure FitsPattern (graph : Graph) (maxDepth : Nat) (pattern : Pattern)
    (choice : PatternChoice) : Prop where
  start : choice.start ∈ graph.nodes.toList
  satisfied : Satisfies choice.start pattern.start
  hops : FitsHops graph maxDepth choice.start pattern.hops choice.hops

def named (binder : Option Identifier) (element : Element) : List (String × Element) :=
  binder.toList.map fun identifier => (identifier.name, element)

/-- A relationship's variable stands for the last edge crossed. -/
def HopChoice.bound (hop : Hop) (choice : HopChoice) : List (String × Element) :=
  (choice.crossings.getLast?.toList.flatMap fun last =>
    named hop.relationship.binder (.edge last.edge)) ++
  named hop.node.binder (.node choice.node)

def boundByHops (hops : List Hop) (choices : List HopChoice) : List (String × Element) :=
  (hops.zip choices).flatMap fun (hop, choice) => choice.bound hop

def PatternChoice.bound (pattern : Pattern) (choice : PatternChoice) : List (String × Element) :=
  named pattern.start.binder (.node choice.start) ++ boundByHops pattern.hops choice.hops

/-- The variables of the patterns with what the positions that carry them chose, in written
order. -/
def bound (patterns : List Pattern) (choices : List PatternChoice) : List (String × Element) :=
  (patterns.zip choices).flatMap fun (pattern, choice) => choice.bound pattern

/-- A variable stands for one element, wherever it is written. -/
def Agree (pairs : List (String × Element)) : Prop :=
  ∀ name left right, (name, left) ∈ pairs → (name, right) ∈ pairs → left = right

structure Matches (graph : Graph) (maxDepth : Nat) (patterns : List Pattern)
    (choices : List PatternChoice) : Prop where
  fits : List.Forall₂ (FitsPattern graph maxDepth) patterns choices
  agree : Agree (bound patterns choices)

def bindings (patterns : List Pattern) (choices : List PatternChoice) : Bindings :=
  Ordered.ofPairs (bound patterns choices)

end DocumentGraph.Match
