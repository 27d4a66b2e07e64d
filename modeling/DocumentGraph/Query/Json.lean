import DocumentGraph.Json.Basic
import DocumentGraph.Query.Basic

namespace DocumentGraph.Query

/-! The JSON form of a parsed query.  Absent parts are `null`; a choice is the name of its
case, or an object whose only key is that name. -/

def Position.toJson (position : Position) : Json :=
  .object [
    ("offset", .integer position.offset),
    ("line", .integer position.line),
    ("column", .integer position.column)]

def Identifier.toJson (identifier : Identifier) : Json :=
  .object [("name", .string identifier.name), ("position", identifier.position.toJson)]

def Literal.toJson : Literal → Json
  | string value => .object [("String", .string value)]
  | integer value => .object [("Integer", .integer value.toInt)]
  | boolean value => .object [("Boolean", .boolean value)]
  | null => .string "Null"

def propertyMapJson (pairs : List (String × Literal)) : Json :=
  .object [("properties", Json.ofList
    (fun (key, value) => .object [("key", .string key), ("value", Literal.toJson value)]) pairs)]

def NodePattern.toJson (pattern : NodePattern) : Json :=
  .object [
    ("variable", Json.ofOption Identifier.toJson pattern.binder),
    ("label", Json.ofOption Identifier.toJson pattern.label),
    ("properties", Json.ofOption propertyMapJson pattern.properties),
    ("position", pattern.position.toJson)]

def Direction.name : Direction → String
  | forward => "LeftToRight"
  | backward => "RightToLeft"
  | either => "Undirected"

def HopRange.toJson (range : HopRange) : Json :=
  let bound (value : UInt32) : Json := .integer value.toNat
  .object [("min", Json.ofOption bound range.min), ("max", Json.ofOption bound range.max)]

def RelationshipPattern.toJson (pattern : RelationshipPattern) : Json :=
  .object [
    ("variable", Json.ofOption Identifier.toJson pattern.binder),
    ("rel_type", Json.ofOption Identifier.toJson pattern.type),
    ("direction", .string pattern.direction.name),
    ("range", Json.ofOption HopRange.toJson pattern.range),
    ("position", pattern.position.toJson)]

def Hop.toJson (hop : Hop) : Json :=
  .object [("relationship", hop.relationship.toJson), ("node", hop.node.toJson)]

def Pattern.toJson (pattern : Pattern) : Json :=
  .object [("start", pattern.start.toJson), ("chain", Json.ofList Hop.toJson pattern.hops)]

def PropertyAccess.toJson (access : PropertyAccess) : Json :=
  .object [("variable", access.owner.toJson), ("property", .string access.property)]

def ComparisonOperator.name : ComparisonOperator → String
  | equals => "Equals"
  | notEquals => "NotEquals"
  | lessThan => "LessThan"
  | lessEqual => "LessEqual"
  | greaterThan => "GreaterThan"
  | greaterEqual => "GreaterEqual"
  | contains => "Contains"
  | startsWith => "StartsWith"
  | endsWith => "EndsWith"

def Operand.toJson : Operand → Json
  | property access => .object [("Property", access.toJson)]
  | literal value => .object [("Literal", value.toJson)]

def Condition.toJson : Condition → Json
  | comparison left operator right => .object [("Comparison", .object [
      ("left", left.toJson),
      ("operator", .string operator.name),
      ("right", right.toJson)])]
  | nullCheck access negated => .object [("NullCheck", .object [
      ("property", access.toJson),
      ("negated", .boolean negated)])]
  | not inner => .object [("Not", inner.toJson)]
  | and left right => .object [("Logical", .object [
      ("operator", .string "And"), ("left", left.toJson), ("right", right.toJson)])]
  | or left right => .object [("Logical", .object [
      ("operator", .string "Or"), ("left", left.toJson), ("right", right.toJson)])]

def AggregateFunction.name : AggregateFunction → String
  | count => "Count"
  | collect => "Collect"

def AggregateArgument.toJson : AggregateArgument → Json
  | star => .string "Star"
  | property access => .object [("Property", access.toJson)]
  | element identifier => .object [("Variable", identifier.toJson)]

def Aggregate.toJson (aggregate : Aggregate) : Json :=
  .object [
    ("function", .string aggregate.function.name),
    ("distinct", .boolean aggregate.distinct),
    ("argument", aggregate.argument.toJson)]

def ReturnExpression.toJson : ReturnExpression → Json
  | property access => .object [("Property", access.toJson)]
  | element identifier => .object [("Variable", identifier.toJson)]
  | aggregate value => .object [("Aggregate", value.toJson)]

def ReturnItem.toJson (item : ReturnItem) : Json :=
  .object [
    ("expression", item.expression.toJson),
    ("alias", Json.ofOption .string item.columnAlias)]

def Projection.toJson (projection : Projection) : Json :=
  .object [
    ("distinct", .boolean projection.distinct),
    ("items", Json.ofList ReturnItem.toJson projection.items)]

def toJson (query : Query) : Json :=
  .object [
    ("match_clause", .object [("patterns", Json.ofList Pattern.toJson query.patterns)]),
    ("where_clause", Json.ofOption
      (fun condition => .object [("condition", Condition.toJson condition)]) query.condition),
    ("return_clause", query.projection.toJson)]

end DocumentGraph.Query
