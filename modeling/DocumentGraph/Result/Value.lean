import DocumentGraph.Graph.Element
import DocumentGraph.Query.Basic

namespace DocumentGraph

inductive Value where
  | null
  | boolean (value : Bool)
  | integer (value : Int)
  | float (value : Number.Binary64)
  | string (value : String)
  | list (items : List Value)
  | node (node : Node)
  | edge (edge : Edge)

namespace Value

def isNull : Value → Bool
  | null => true
  | _ => false

def text? : Value → Option String
  | string value => some value
  | _ => none

def kindName : Value → String
  | null => "null"
  | boolean _ => "boolean"
  | integer _ => "integer"
  | float _ => "float"
  | string _ => "string"
  | list _ => "list"
  | node _ => "node"
  | edge _ => "relationship"

def ofProperty : Property → Value
  | .null => null
  | .boolean value => boolean value
  | .integer value => integer value.toInt
  | .float value => float value
  | .string value => string value
  | .list items => list (items.map string)

def ofLiteral : Query.Literal → Value
  | .null => null
  | .boolean value => boolean value
  | .integer value => integer value.toInt
  | .string value => string value

/-! Grouping and distinctness compare values part by part: floating-point numbers by their
bits, nodes and edges by their ids. -/

mutual

def same : Value → Value → Bool
  | null, null => true
  | boolean left, boolean right => left = right
  | integer left, integer right => left = right
  | float left, float right => left = right
  | string left, string right => left = right
  | list left, list right => sameItems left right
  | node left, node right => left.id = right.id
  | edge left, edge right => left.id = right.id
  | _, _ => false

def sameItems : List Value → List Value → Bool
  | [], [] => true
  | left :: lefts, right :: rights => same left right && sameItems lefts rights
  | _, _ => false

end

/-- The number that a numeric value stands for in a comparison with another kind of
number. -/
def toBinary64? : Value → Option Number.Binary64
  | integer value => some (Number.Binary64.ofInt value)
  | float value => some value
  | _ => none

end Value

end DocumentGraph
