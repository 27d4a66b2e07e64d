import DocumentGraph.Evaluate.Compare
import DocumentGraph.Evaluate.Property
import DocumentGraph.Query.Basic

namespace DocumentGraph.Match

open Query (Identifier NodePattern)

/-! Bindings of variables to elements of the graph, and what a node must satisfy. -/

inductive Element where
  | node (node : Node)
  | edge (edge : Edge)
deriving DecidableEq

/-- Nodes are identified by their ids, and so are edges. -/
def Element.same : Element → Element → Bool
  | node left, node right => left.id = right.id
  | edge left, edge right => left.id = right.id
  | _, _ => false

/-- Variables and their elements, in the order in which they were bound. -/
abbrev Bindings := List (String × Element)

namespace Bindings

def element? (bindings : Bindings) (identifier : Identifier) : Option Element :=
  bindings.lookup identifier.name

/-- The bindings with a pattern's variable bound, if it has one. -/
def bind (bindings : Bindings) (binder : Option Identifier) (element : Element) : Bindings :=
  match binder with
  | none => bindings
  | some identifier => Ordered.put identifier.name element bindings

/-- Whether an element may be bound to a pattern's variable: a variable that is bound
already must be bound to the same element. -/
def allows (bindings : Bindings) (binder : Option Identifier) (element : Element) : Bool :=
  match binder.bind bindings.element? with
  | none => true
  | some existing => existing.same element

end Bindings

def equalIgnoringCase (left right : String) : Bool :=
  left.toList.map Char.toLower = right.toList.map Char.toLower

/-- Whether a node has every property of a map, looked up one after the other until one
is not met. -/
def meetsAll (node : Node) : List (String × Query.Literal) → Noted Bool
  | [] => pure true
  | (key, literal) :: pairs => do
      if (← node.property key).meets literal then meetsAll node pairs else return false

def satisfies (node : Node) (pattern : NodePattern) : Noted Bool :=
  if pattern.label.all fun label => node.labels.any (equalIgnoringCase · label.name) then
    meetsAll node (pattern.properties.getD [])
  else
    pure false

end DocumentGraph.Match
