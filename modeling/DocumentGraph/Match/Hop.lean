import DocumentGraph.Graph.Snapshot
import DocumentGraph.Match.Binding

namespace DocumentGraph.Match

open Query (Direction Hop HopRange RelationshipPattern)

/-! Hops from a node to others.

A step crosses one edge.  A trail is a path that never returns to a node; a
variable-length hop finds the ends of trails, level by level, so that shorter trails come
first and trails of one length follow the order of their steps.
-/

def incident (graph : Snapshot) (id : String) : Direction → List Edge
  | .forward => graph.outgoing id
  | .backward => graph.incoming id
  | .either => graph.outgoing id ++ graph.incoming id

/-- The end of an edge that lies across from a node. -/
def farEnd (edge : Edge) (id : String) : String :=
  if edge.source = id then edge.target else edge.source

def admits (relationship : RelationshipPattern) (edge : Edge) : Bool :=
  relationship.type.all fun type => edge.type = type.name

structure Step where
  edge : Edge
  node : Node
deriving DecidableEq

/-- The steps from a node that a relationship admits.  An edge that leads to no node of
the graph is no step. -/
def steps (graph : Snapshot) (relationship : RelationshipPattern) (node : Node) : List Step :=
  (incident graph node.id relationship.direction).filterMap fun edge =>
    if admits relationship edge then
      (graph.node? (farEnd edge node.id)).map fun next => { edge, node := next }
    else none

/-- A binding set in the making, and the node that the last part of its pattern matched. -/
structure Partial where
  bindings : Bindings
  anchor : Node

def oneStep (graph : Snapshot) (hop : Hop) (current : Partial) : Noted (List Partial) :=
  Noted.collect (steps graph hop.relationship current.anchor) fun step => do
    let bindings := current.bindings
    let fits ← satisfies step.node hop.node
    if fits && bindings.allows hop.node.binder (.node step.node) &&
        bindings.allows hop.relationship.binder (.edge step.edge) then
      let bindings := bindings.bind hop.relationship.binder (.edge step.edge)
      return [{ bindings := bindings.bind hop.node.binder (.node step.node), anchor := step.node }]
    else
      return []

/-- A path that visits no node twice. -/
structure Trail where
  node : Node
  visited : List String
  /-- The edges of the trail, the last one first. -/
  edges : List Edge

namespace Trail

def start (node : Node) : Trail :=
  { node, visited := [node.id], edges := [] }

def extensions (graph : Snapshot) (relationship : RelationshipPattern) (trail : Trail) :
    List Trail :=
  (steps graph relationship trail.node).filterMap fun step =>
    if trail.visited.contains (farEnd step.edge trail.node.id) then none
    else some {
      node := step.node
      visited := step.node.id :: trail.visited
      edges := step.edge :: trail.edges }

/-- The trails that begin with those of `level` and have at most `further` edges more, by
their length. -/
def levels (graph : Snapshot) (relationship : RelationshipPattern) :
    Nat → List Trail → List (List Trail)
  | 0, level => [level]
  | further + 1, level =>
      if level.isEmpty then []
      else level :: levels graph relationship further
        (level.flatMap (extensions graph relationship))

end Trail

/-- The trails from a node whose number of edges lies in a range.  The trail without
edges never counts. -/
def trails (graph : Snapshot) (relationship : RelationshipPattern) (min max : Nat)
    (source : Node) : List Trail :=
  ((Trail.levels graph relationship max [Trail.start source]).drop (Nat.max 1 min)).flatten

/-- Extends a binding set by a hop over a trail.  The relationship's variable is bound to
the last edge. -/
def manySteps (graph : Snapshot) (maxDepth : Nat) (hop : Hop) (range : HopRange)
    (current : Partial) : Noted (List Partial) :=
  let min := (range.min.map UInt32.toNat).getD 0
  let max := (range.max.map UInt32.toNat).getD maxDepth
  Noted.collect (trails graph hop.relationship min max current.anchor) fun trail => do
    let fits ← satisfies trail.node hop.node
    match trail.edges with
    | [] => return []
    | last :: _ =>
        if fits && current.bindings.allows hop.node.binder (.node trail.node) then
          let bindings := current.bindings.bind hop.relationship.binder (.edge last)
          return [{
            bindings := bindings.bind hop.node.binder (.node trail.node)
            anchor := trail.node }]
        else
          return []

def hop (graph : Snapshot) (maxDepth : Nat) (hop : Hop) (current : Partial) :
    Noted (List Partial) :=
  match hop.relationship.range with
  | none => oneStep graph hop current
  | some range => manySteps graph maxDepth hop range current

end DocumentGraph.Match
