import DocumentGraph.Number.Binary64

namespace DocumentGraph

/-- A JSON value.  Objects keep the order of their members. -/
inductive Json where
  | null
  | boolean (value : Bool)
  | integer (value : Int)
  | float (value : Number.Binary64)
  | string (value : String)
  | array (items : List Json)
  | object (members : List (String × Json))

namespace Json

def text? : Json → Option String
  | string value => some value
  | _ => none

def ofOption (encode : α → Json) : Option α → Json
  | none => null
  | some value => encode value

def ofList (encode : α → Json) (values : List α) : Json :=
  array (values.map encode)

end Json

end DocumentGraph
