import DocumentGraph.Query.Position

namespace DocumentGraph.Query

/-! The parsed form of a query.

A query matches patterns, may filter the matches by a condition, and projects each match
to result columns.  A pattern is a chain of nodes joined by hops.  Identifiers keep their
place so that later errors can point at them.
-/

structure Identifier where
  name : String
  position : Position
deriving DecidableEq, Repr

inductive Literal where
  | string (value : String)
  | integer (value : Int64)
  | boolean (value : Bool)
  | null
deriving DecidableEq

structure PropertyAccess where
  owner : Identifier
  property : String
deriving DecidableEq, Repr

def PropertyAccess.spelling (access : PropertyAccess) : String :=
  access.owner.name ++ "." ++ access.property

structure NodePattern where
  binder : Option Identifier := none
  label : Option Identifier := none
  /-- Properties a node must have, in written order; `none` when no map is written. -/
  properties : Option (List (String × Literal)) := none
  position : Position := {}
deriving DecidableEq

/-- How a relationship must run between the node before it and the node behind it. -/
inductive Direction where
  | forward
  | backward
  | either
deriving DecidableEq, Repr

structure HopRange where
  min : Option UInt32
  max : Option UInt32
deriving DecidableEq, Repr

structure RelationshipPattern where
  binder : Option Identifier := none
  type : Option Identifier := none
  direction : Direction
  /-- Written bounds; `none` for a hop over exactly one edge. -/
  range : Option HopRange := none
  position : Position := {}
deriving DecidableEq

structure Hop where
  relationship : RelationshipPattern
  node : NodePattern
deriving DecidableEq

structure Pattern where
  start : NodePattern
  hops : List Hop
deriving DecidableEq

inductive ComparisonOperator where
  | equals | notEquals | lessThan | lessEqual | greaterThan | greaterEqual
  | contains | startsWith | endsWith
deriving DecidableEq, Repr

def ComparisonOperator.spelling : ComparisonOperator → String
  | equals => "="
  | notEquals => "<>"
  | lessThan => "<"
  | lessEqual => "<="
  | greaterThan => ">"
  | greaterEqual => ">="
  | contains => "CONTAINS"
  | startsWith => "STARTS WITH"
  | endsWith => "ENDS WITH"

inductive Operand where
  | property (access : PropertyAccess)
  | literal (value : Literal)
deriving DecidableEq

inductive Condition where
  | comparison (left : PropertyAccess) (operator : ComparisonOperator) (right : Operand)
  | nullCheck (access : PropertyAccess) (negated : Bool)
  | not (inner : Condition)
  | and (left right : Condition)
  | or (left right : Condition)
deriving DecidableEq

inductive AggregateFunction where
  | count
  | collect
deriving DecidableEq, Repr

def AggregateFunction.spelling : AggregateFunction → String
  | count => "COUNT"
  | collect => "COLLECT"

inductive AggregateArgument where
  | star
  | property (access : PropertyAccess)
  | element (identifier : Identifier)
deriving DecidableEq, Repr

structure Aggregate where
  function : AggregateFunction
  distinct : Bool
  argument : AggregateArgument
deriving DecidableEq, Repr

inductive ReturnExpression where
  | property (access : PropertyAccess)
  | element (identifier : Identifier)
  | aggregate (aggregate : Aggregate)
deriving DecidableEq, Repr

def ReturnExpression.isAggregate : ReturnExpression → Bool
  | aggregate _ => true
  | _ => false

structure ReturnItem where
  expression : ReturnExpression
  columnAlias : Option String := none
deriving DecidableEq, Repr

def Aggregate.spelling (aggregate : Aggregate) : String :=
  let distinct := if aggregate.distinct then "DISTINCT " else ""
  let argument := match aggregate.argument with
    | .star => "*"
    | .property access => distinct ++ access.spelling
    | .element identifier => distinct ++ identifier.name
  aggregate.function.spelling ++ "(" ++ argument ++ ")"

def ReturnExpression.spelling : ReturnExpression → String
  | .property access => access.spelling
  | .element identifier => identifier.name
  | .aggregate value => value.spelling

/-- The column an item fills: its alias, else the way the item is spelled. -/
def ReturnItem.columnName (item : ReturnItem) : String :=
  item.columnAlias.getD item.expression.spelling

structure Projection where
  distinct : Bool
  items : List ReturnItem
deriving DecidableEq, Repr

def Projection.hasAggregate (projection : Projection) : Bool :=
  projection.items.any (·.expression.isAggregate)

end DocumentGraph.Query

namespace DocumentGraph

structure Query where
  patterns : List Query.Pattern
  condition : Option Query.Condition
  projection : Query.Projection
deriving DecidableEq

end DocumentGraph
