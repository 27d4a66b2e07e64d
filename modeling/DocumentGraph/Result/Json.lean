import DocumentGraph.Graph.Json
import DocumentGraph.Json.Print
import DocumentGraph.Result.Table

namespace DocumentGraph

/-! Results as JSON, and the text of a value in a cell. -/

namespace Value

mutual

def toJson : Value → Json
  | null => .null
  | boolean value => .boolean value
  | integer value => .integer value
  | float value => .float value
  | string value => .string value
  | list items => .array (itemsToJson items)
  | node value => value.toJson
  | edge value => value.toJson

def itemsToJson : List Value → List Json
  | [] => []
  | item :: items => toJson item :: itemsToJson items

end

/-- The text of a value in a cell: nothing for NULL, a string as it is, and JSON for
whatever has parts. -/
def display : Value → String
  | null => ""
  | boolean value => if value then "true" else "false"
  | integer value => toString value
  | float value => value.plainText
  | string value => value
  | value => value.toJson.compact

end Value

def Row.toJson (row : Row) : Json :=
  .object (row.map fun (column, value) => (column, value.toJson))

/-- The location of a diagnostic is left out when it has none. -/
def Query.Diagnostic.toJson (diagnostic : Query.Diagnostic) : Json :=
  let place : List (String × Json) := match diagnostic.location with
    | none => []
    | some position => [
        ("position", .integer position.offset),
        ("line", .integer position.line),
        ("column", .integer position.column)]
  .object ([("code", .string diagnostic.code.text), ("message", .string diagnostic.message)] ++
    place)

def Table.toJson (table : Table) : Json :=
  .object [
    ("columns", Json.ofList .string table.columns),
    ("rows", Json.ofList Row.toJson table.rows),
    ("errors", Json.ofList Query.Diagnostic.toJson table.diagnostics)]

end DocumentGraph
