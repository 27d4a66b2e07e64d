import DocumentGraph.Graph.Element
import DocumentGraph.Json.Read

namespace DocumentGraph

open Json (Reader)

/-! Reading a node from its JSON text.

The JSON form of a property does not name its kind: the kinds are tried in their order, and
the first that the form can stand for is taken.  A node is an object with each of its five
fields once and any others ignored, or the list of the five in order.
-/

namespace Property

inductive Kind where
  | null
  | boolean
  | integer
  | float
  | string
  | list
deriving DecidableEq, Repr

/-- The kinds in the order in which they are tried. -/
def Kind.all : List Kind :=
  [.null, .boolean, .integer, .float, .string, .list]

/-- The property of a kind that a JSON value can stand for.  An integer can stand for a
floating-point number. -/
def Kind.property? : Kind → Json → Option Property
  | .null, .null => some .null
  | .boolean, .boolean value => some (.boolean value)
  | .integer, .integer value =>
      if Int64.minValue.toInt ≤ value ∧ value ≤ Int64.maxValue.toInt then
        some (.integer (Int64.ofInt value))
      else none
  | .float, .float value => some (.float value)
  | .float, .integer value => some (.float (Number.Binary64.ofInt value))
  | .string, .string value => some (.string value)
  | .list, .array items => (items.mapM Json.text?).map .list
  | _, _ => none

def ofJson? (json : Json) : Option Property :=
  Kind.all.findSome? (·.property? json)

def reader : Reader Property := do
  match ofJson? (← Reader.value) with
  | some property => return property
  | none => failure

end Property

def PropertyBag.reader : Reader PropertyBag := do
  return Ordered.ofPairs (← Reader.delimited '\x7b' '\x7d' (Reader.member Property.reader))

namespace Node

inductive Field where
  | id (value : String)
  | labels (value : List String)
  | properties (value : PropertyBag)
  | skill (value : String)
  | path (value : String)
  | other

def labelsReader : Reader (List String) :=
  Reader.delimited '[' ']' Reader.string

def fieldReader : Reader Field := do
  let key ← Reader.string
  Reader.token ':'
  match key with
  | "id" => return .id (← Reader.string)
  | "labels" => return .labels (← labelsReader)
  | "properties" => return .properties (← PropertyBag.reader)
  | "skill" => return .skill (← Reader.string)
  | "path" => return .path (← Reader.string)
  | _ => Reader.skipValue; return .other

def only? : List α → Option α
  | [value] => some value
  | _ => none

def ofFields? (fields : List Field) : Option Node := do
  let id ← only? (fields.filterMap fun | .id value => some value | _ => none)
  let labels ← only? (fields.filterMap fun | .labels value => some value | _ => none)
  let properties ← only? (fields.filterMap fun | .properties value => some value | _ => none)
  let skill ← only? (fields.filterMap fun | .skill value => some value | _ => none)
  let path ← only? (fields.filterMap fun | .path value => some value | _ => none)
  return { id, labels, properties, skill, path }

def objectReader : Reader Node := do
  match ofFields? (← Reader.delimited '\x7b' '\x7d' fieldReader) with
  | some node => return node
  | none => failure

def listReader : Reader Node := do
  Reader.token '['
  let id ← Reader.string
  Reader.token ','
  let labels ← labelsReader
  Reader.token ','
  let properties ← PropertyBag.reader
  Reader.token ','
  let skill ← Reader.string
  Reader.token ','
  let path ← Reader.string
  Reader.token ']'
  return { id, labels, properties, skill, path }

def ofJsonText? (text : String) : Option Node := do
  let whole : Reader Node := do
    let node ← if (← Reader.peek) = some '[' then listReader else objectReader
    Reader.finish
    return node
  let (node, _) ← whole text.toList
  return node

end Node

end DocumentGraph
