import DocumentGraph.Number.Binary64
import DocumentGraph.Ordered

namespace DocumentGraph

/-! Nodes, edges and their properties. -/

inductive Property where
  | null
  | boolean (value : Bool)
  | integer (value : Int64)
  | float (value : Number.Binary64)
  | string (value : String)
  | list (items : List String)
deriving DecidableEq

namespace Property

def isNull (property : Property) : Bool :=
  property = null

def text? : Property → Option String
  | string value => some value
  | _ => none

end Property

/-- Named properties in order of their first insertion. -/
abbrev PropertyBag := List (String × Property)

/-- A document or a skill.  Labels are kept without the colon that queries write. -/
structure Node where
  id : String
  labels : List String := []
  properties : PropertyBag := []
  /-- The skill directory that the node comes from. -/
  skill : String := ""
  /-- The path below the root of the graph. -/
  path : String := ""
deriving DecidableEq

namespace Node

def hasLabel (node : Node) (label : String) : Bool :=
  node.labels.contains label

def putProperty (node : Node) (key : String) (value : Property) : Node :=
  { node with properties := Ordered.put key value node.properties }

end Node

/-- A directed edge of some type between two nodes, which it names by their ids. -/
structure Edge where
  id : String
  type : String
  source : String
  target : String
  properties : PropertyBag := []
deriving DecidableEq

namespace Edge

def derivedId (source type target : String) : String :=
  source ++ "--" ++ type ++ "--" ++ target

/-- An edge that is named after its type and its ends. -/
def between (source type target : String) : Edge :=
  { id := derivedId source type target, type, source, target }

end Edge

end DocumentGraph
