import DocumentGraph.Query.Basic
import DocumentGraph.Query.Error
import DocumentGraph.Query.Vocabulary

namespace DocumentGraph.Query

/-! Names in a query.

A pattern introduces names; a condition and a projection may only use introduced ones.
A node may be introduced again, which joins the patterns, a relationship may not, and no
name stands for both.
-/

inductive Role where
  | node
  | relationship
deriving DecidableEq, Repr

def Role.description : Role → String
  | node => "node"
  | relationship => "relationship"

abbrev Scope := List (String × Role)

namespace Scope

def introduce (scope : Scope) (role : Role) : Option Identifier → Except QueryError Scope
  | none => .ok scope
  | some identifier =>
      match scope.lookup identifier.name with
      | none => .ok ((identifier.name, role) :: scope)
      | some existing =>
          if existing = .node ∧ role = .node then .ok scope
          else .error (.duplicateBinding identifier.name existing.description identifier.position)

def node (scope : Scope) (pattern : NodePattern) : Except QueryError Scope := do
  if let some label := pattern.label then
    unless isLabel label.name do
      throw (.unknownLabel label.name label.position)
  scope.introduce .node pattern.binder

def relationship (scope : Scope) (pattern : RelationshipPattern) : Except QueryError Scope := do
  if let some type := pattern.type then
    unless isRelationshipType type.name do
      throw (.unknownRelationshipType type.name type.position)
  scope.introduce .relationship pattern.binder

def hop (scope : Scope) (hop : Hop) : Except QueryError Scope := do
  (← scope.relationship hop.relationship).node hop.node

def pattern (scope : Scope) (pattern : Pattern) : Except QueryError Scope := do
  pattern.hops.foldlM Scope.hop (← scope.node pattern.start)

def ofPatterns (patterns : List Pattern) : Except QueryError Scope :=
  patterns.foldlM Scope.pattern []

def require (scope : Scope) (identifier : Identifier) : Except QueryError Unit :=
  if (scope.lookup identifier.name).isSome then .ok ()
  else .error (.unboundVariable identifier.name identifier.position)

end Scope

def Condition.uses : Condition → List Identifier
  | comparison left _ (.property right) => [left.owner, right.owner]
  | comparison left _ (.literal _) => [left.owner]
  | nullCheck access _ => [access.owner]
  | not inner => inner.uses
  | and left right => left.uses ++ right.uses
  | or left right => left.uses ++ right.uses

def AggregateArgument.uses : AggregateArgument → List Identifier
  | star => []
  | property access => [access.owner]
  | element identifier => [identifier]

def ReturnExpression.uses : ReturnExpression → List Identifier
  | property access => [access.owner]
  | element identifier => [identifier]
  | aggregate value => value.argument.uses

/-- The identifiers used outside the patterns, in written order. -/
def uses (query : Query) : List Identifier :=
  (query.condition.map Condition.uses).getD [] ++
    query.projection.items.flatMap (·.expression.uses)

/-- Accepts a query whose labels and types are known and whose names are introduced
consistently and before they are used. -/
def check (query : Query) : Except QueryError Unit := do
  let scope ← Scope.ofPatterns query.patterns
  query.uses.forM scope.require

end DocumentGraph.Query
