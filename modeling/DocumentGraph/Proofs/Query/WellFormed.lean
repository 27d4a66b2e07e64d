import DocumentGraph.Proofs.Query.Grammar
import DocumentGraph.Proofs.Query.Lexeme
import DocumentGraph.Query.Scope
import Mathlib.Tactic.MkIffOfInductiveProp

namespace DocumentGraph.Query

/-! Well-formed queries.

A query is well-formed when its parts can be written: its names are names, its numbers have no
sign, its ranges have an order, and its condition does not nest too deeply.  Nothing is said
about how it is written.
-/

/-- A variable is a name that is not reserved. -/
@[mk_iff]
structure IsVariable (identifier : Identifier) : Prop where
  named : isName identifier.name.toList = true
  free : Keyword.ofWord? identifier.name.toList = none

@[mk_iff]
structure PropertyAccess.WellFormed (access : PropertyAccess) : Prop where
  owner : IsVariable access.owner
  property : isName access.property.toList = true

/-- Whole numbers have no sign. -/
def Literal.WellFormed : Literal → Prop
  | integer value => 0 ≤ value.toInt
  | _ => True

@[mk_iff]
structure NodePattern.WellFormed (pattern : NodePattern) : Prop where
  binder : ∀ identifier ∈ pattern.binder, IsVariable identifier
  label : ∀ label ∈ pattern.label, isLabel label.name = true
  properties : ∀ pairs ∈ pattern.properties, ∀ pair ∈ pairs,
    isName pair.1.toList = true ∧ pair.2.WellFormed

/-- An upper bound has a lower bound below it. -/
def HopRange.WellFormed (range : HopRange) : Prop :=
  ∀ high ∈ range.max, ∃ low ∈ range.min, low ≤ high

@[mk_iff]
structure RelationshipPattern.WellFormed (pattern : RelationshipPattern) : Prop where
  binder : ∀ identifier ∈ pattern.binder, IsVariable identifier
  type : ∀ type ∈ pattern.type, isRelationshipType type.name = true
  range : ∀ range ∈ pattern.range, range.WellFormed

@[mk_iff]
structure Pattern.WellFormed (pattern : Pattern) : Prop where
  start : pattern.start.WellFormed
  hops : ∀ hop ∈ pattern.hops, hop.relationship.WellFormed ∧ hop.node.WellFormed

def Operand.WellFormed : Operand → Prop
  | property access => access.WellFormed
  | literal value => value.WellFormed

def Condition.WellFormed : Condition → Prop
  | comparison left _ right => left.WellFormed ∧ right.WellFormed
  | nullCheck access _ => access.WellFormed
  | not inner => inner.WellFormed
  | and left right => left.WellFormed ∧ right.WellFormed
  | or left right => left.WellFormed ∧ right.WellFormed

/-- At the level, AND needs no parentheses. -/
def Grammar.Level.holdsAnd : Grammar.Level → Bool
  | term => false
  | conjunction => true
  | disjunction => true

/-- At the level, OR needs no parentheses. -/
def Grammar.Level.holdsOr : Grammar.Level → Bool
  | term => false
  | conjunction => false
  | disjunction => true

/-- How many negations and parentheses stand around a comparison of the condition, at most, when
there are no more parentheses than needed. -/
def Condition.nesting : Grammar.Level → Condition → Nat
  | _, comparison _ _ _ => 0
  | _, nullCheck _ _ => 0
  | _, not inner => inner.nesting .term + 1
  | level, and left right =>
      max (left.nesting .conjunction) (right.nesting .term) + if level.holdsAnd then 0 else 1
  | level, or left right =>
      max (left.nesting .disjunction) (right.nesting .conjunction) + if level.holdsOr then 0 else 1

/-- Only a plain COUNT is taken of the matches themselves. -/
def Aggregate.WellFormed (aggregate : Aggregate) : Prop :=
  match aggregate.argument with
  | .star => aggregate.function = .count ∧ aggregate.distinct = false
  | .property access => access.WellFormed
  | .element identifier => IsVariable identifier

def ReturnExpression.WellFormed : ReturnExpression → Prop
  | property access => access.WellFormed
  | element identifier => IsVariable identifier
  | aggregate value => value.WellFormed

@[mk_iff]
structure ReturnItem.WellFormed (item : ReturnItem) : Prop where
  expression : item.expression.WellFormed
  columnAlias : ∀ name ∈ item.columnAlias, isName name.toList = true

@[mk_iff]
structure WellFormed (query : DocumentGraph.Query) : Prop where
  hasPattern : query.patterns ≠ []
  patterns : ∀ pattern ∈ query.patterns, pattern.WellFormed
  condition : ∀ condition ∈ query.condition, condition.WellFormed
  shallow : ∀ condition ∈ query.condition,
    condition.nesting .disjunction < Grammar.nestingLimit
  hasItem : query.projection.items ≠ []
  items : ∀ item ∈ query.projection.items, item.WellFormed
  checked : query.check = .ok ()

instance : DecidablePred IsVariable :=
  fun identifier => decidable_of_iff' _ (isVariable_iff identifier)

instance : DecidablePred PropertyAccess.WellFormed :=
  fun access => decidable_of_iff' _ (PropertyAccess.wellFormed_iff access)

instance : DecidablePred Literal.WellFormed
  | .integer value => inferInstanceAs (Decidable (0 ≤ value.toInt))
  | .string _ | .boolean _ | .null => .isTrue trivial

instance : DecidablePred NodePattern.WellFormed :=
  fun pattern => decidable_of_iff' _ (NodePattern.wellFormed_iff pattern)

instance : DecidablePred HopRange.WellFormed
  | { max := none, .. } => .isTrue (by simp [HopRange.WellFormed])
  | { min := none, max := some _ } => .isFalse (by simp [HopRange.WellFormed])
  | { min := some low, max := some high } =>
      decidable_of_iff (low ≤ high) (by simp [HopRange.WellFormed])

instance : DecidablePred RelationshipPattern.WellFormed :=
  fun pattern => decidable_of_iff' _ (RelationshipPattern.wellFormed_iff pattern)

instance : DecidablePred Pattern.WellFormed :=
  fun pattern => decidable_of_iff' _ (Pattern.wellFormed_iff pattern)

instance : DecidablePred Operand.WellFormed
  | .property access => inferInstanceAs (Decidable access.WellFormed)
  | .literal value => inferInstanceAs (Decidable value.WellFormed)

instance Condition.decidableWellFormed : DecidablePred Condition.WellFormed
  | comparison left _ right => inferInstanceAs (Decidable (left.WellFormed ∧ right.WellFormed))
  | nullCheck access _ => inferInstanceAs (Decidable access.WellFormed)
  | not inner => decidableWellFormed inner
  | and left right =>
      @instDecidableAnd _ _ (decidableWellFormed left) (decidableWellFormed right)
  | or left right =>
      @instDecidableAnd _ _ (decidableWellFormed left) (decidableWellFormed right)

instance : DecidablePred Aggregate.WellFormed
  | { argument := .star, function, distinct } =>
      inferInstanceAs (Decidable (function = .count ∧ distinct = false))
  | { argument := .property access, .. } => inferInstanceAs (Decidable access.WellFormed)
  | { argument := .element identifier, .. } => inferInstanceAs (Decidable (IsVariable identifier))

instance : DecidablePred ReturnExpression.WellFormed
  | .property access => inferInstanceAs (Decidable access.WellFormed)
  | .element identifier => inferInstanceAs (Decidable (IsVariable identifier))
  | .aggregate value => inferInstanceAs (Decidable value.WellFormed)

instance : DecidablePred ReturnItem.WellFormed :=
  fun item => decidable_of_iff' _ (ReturnItem.wellFormed_iff item)

instance (query : DocumentGraph.Query) : Decidable (query.check = .ok ()) :=
  match query.check with
  | .ok () => .isTrue rfl
  | .error _ => .isFalse (by simp)

instance : DecidablePred WellFormed :=
  fun query => decidable_of_iff' _ (wellFormed_iff query)

end DocumentGraph.Query
