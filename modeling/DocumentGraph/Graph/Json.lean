import DocumentGraph.Graph.Basic
import DocumentGraph.Json.Basic

namespace DocumentGraph

/-! How nodes, edges and graphs are written as JSON.  The kind of a property is not written;
its JSON form shows it. -/

namespace Property

def toJson : Property → Json
  | null => .null
  | boolean value => .boolean value
  | integer value => .integer value.toInt
  | float value => .float value
  | string value => .string value
  | list items => Json.ofList .string items

end Property

def PropertyBag.toJson (bag : PropertyBag) : Json :=
  .object (bag.map fun (key, value) => (key, value.toJson))

def Node.toJson (node : Node) : Json :=
  .object [
    ("id", .string node.id),
    ("labels", Json.ofList .string node.labels),
    ("properties", PropertyBag.toJson node.properties),
    ("skill", .string node.skill),
    ("path", .string node.path)]

def Edge.toJson (edge : Edge) : Json :=
  .object [
    ("id", .string edge.id),
    ("type", .string edge.type),
    ("source", .string edge.source),
    ("target", .string edge.target),
    ("properties", PropertyBag.toJson edge.properties)]

/-- Nodes by their ids, and the list of edges. -/
def Graph.toJson (graph : Graph) : Json :=
  .object [
    ("nodes", .object (graph.nodes.toList.map fun node => (node.id, node.toJson))),
    ("edges", Json.ofList Edge.toJson graph.edges.toList)]

end DocumentGraph
