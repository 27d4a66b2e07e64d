import DocumentGraph.Evaluate.Condition
import DocumentGraph.Result.Table

namespace DocumentGraph

open Match (Bindings)
open Query (Aggregate AggregateArgument AggregateFunction Projection ReturnExpression ReturnItem)

/-! From binding sets to rows.

Without aggregates every binding set makes a row.  With aggregates the binding sets are
grouped by the values of the other items, and every group makes a row; groups come in the
order of their first members.
-/

namespace Evaluate

/-- The value of an item on one binding set.  An aggregate has none. -/
def itemValue (bindings : Bindings) : ReturnExpression → Evaluation Value
  | .property access => property bindings access
  | .element identifier => variableValue bindings identifier
  | .aggregate _ => return .null

def plainRow (items : List ReturnItem) (bindings : Bindings) : Evaluation Row :=
  items.foldlM (fun row item => do
    return row.put item.columnName (← itemValue bindings item.expression)) []

/-- Binding sets with the same values of the grouping items. -/
structure Group where
  key : List Value
  members : List Bindings

/-- Adds a binding set to the group with its key, or to a new one at the end. -/
def joinGroup (key : List Value) (member : Bindings) : List Group → List Group
  | [] => [{ key, members := [member] }]
  | group :: groups =>
      if Value.sameItems group.key key then
        { group with members := group.members ++ [member] } :: groups
      else group :: joinGroup key member groups

/-- The values that decide the group of a binding set. -/
def groupKey (items : List ReturnItem) (bindings : Bindings) : Evaluation (List Value) :=
  (items.filter fun item => !item.expression.isAggregate).mapM fun item =>
    itemValue bindings item.expression

/-- The groups of the binding sets.  Aggregates alone have one group, even of nothing. -/
def groups (items : List ReturnItem) (sets : List Bindings) : Evaluation (List Group) := do
  let found ← sets.foldlM (fun found bindings => do
    return joinGroup (← groupKey items bindings) bindings found) []
  if found.isEmpty && items.all (·.expression.isAggregate) then
    return [{ key := [], members := [] }]
  else
    return found

/-- The value of an aggregate's argument on one member of a group. -/
def argumentValue (bindings : Bindings) : AggregateArgument → Evaluation Value
  | .star => return .null
  | .property access => property bindings access
  | .element identifier => variableValue bindings identifier

/-- What an aggregate makes of its argument's values. -/
def combine (aggregate : Aggregate) (values : List Value) : Value :=
  let values := if aggregate.distinct then Ordered.distinctBy Value.same values else values
  match aggregate.function with
  | .count => .integer (values.countP fun value => !value.isNull)
  | .collect => .list values

def aggregateValue (members : List Bindings) (aggregate : Aggregate) : Evaluation Value :=
  match aggregate.argument with
  | .star => return .integer members.length
  | argument => do
      return combine aggregate (← members.mapM fun bindings => argumentValue bindings argument)

/-- Fills the columns of a group's row; the values of the key go to the items that are no
aggregates, in order. -/
def fillGroupRow (members : List Bindings) : List ReturnItem → List Value → Row → Evaluation Row
  | [], _, row => return row
  | item :: items, key, row =>
      match item.expression with
      | .aggregate aggregate => do
          let value ← aggregateValue members aggregate
          fillGroupRow members items key (row.put item.columnName value)
      | _ => fillGroupRow members items key.tail (row.put item.columnName (key.headD .null))

def groupRow (items : List ReturnItem) (group : Group) : Evaluation Row :=
  fillGroupRow group.members items group.key []

def rows (projection : Projection) (sets : List Bindings) : Evaluation (List Row) := do
  if projection.hasAggregate then
    (← groups projection.items sets).mapM (groupRow projection.items)
  else
    sets.mapM (plainRow projection.items)

/-- The columns of a projection; items with the same column share it. -/
def columns (projection : Projection) : List String :=
  Ordered.distinctBy (· = ·) (projection.items.map ReturnItem.columnName)

/-- The rows of a projection, without repetitions if it asks for distinct ones. -/
def project (projection : Projection) (sets : List Bindings) : Evaluation (List Row) := do
  let found ← rows projection sets
  return if projection.distinct then Ordered.distinctBy Row.same found else found

end Evaluate

end DocumentGraph
