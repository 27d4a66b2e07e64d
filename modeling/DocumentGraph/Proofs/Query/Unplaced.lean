import DocumentGraph.Proofs.Query.Site

namespace DocumentGraph.Query

/-! Queries without their places.

Places serve errors only.  So whether a query passes the check does not depend on them
(`check_unplaced`).
-/

def Identifier.unplaced (identifier : Identifier) : Identifier :=
  { identifier with position := {} }

def PropertyAccess.unplaced (access : PropertyAccess) : PropertyAccess :=
  { access with owner := access.owner.unplaced }

def NodePattern.unplaced (pattern : NodePattern) : NodePattern where
  binder := pattern.binder.map Identifier.unplaced
  label := pattern.label.map Identifier.unplaced
  properties := pattern.properties

def RelationshipPattern.unplaced (pattern : RelationshipPattern) : RelationshipPattern where
  binder := pattern.binder.map Identifier.unplaced
  type := pattern.type.map Identifier.unplaced
  direction := pattern.direction
  range := pattern.range

def Hop.unplaced (hop : Hop) : Hop where
  relationship := hop.relationship.unplaced
  node := hop.node.unplaced

def Pattern.unplaced (pattern : Pattern) : Pattern where
  start := pattern.start.unplaced
  hops := pattern.hops.map Hop.unplaced

def Operand.unplaced : Operand → Operand
  | property access => property access.unplaced
  | literal value => literal value

def Condition.unplaced : Condition → Condition
  | comparison left operator right => comparison left.unplaced operator right.unplaced
  | nullCheck access negated => nullCheck access.unplaced negated
  | not inner => not inner.unplaced
  | and left right => and left.unplaced right.unplaced
  | or left right => or left.unplaced right.unplaced

def AggregateArgument.unplaced : AggregateArgument → AggregateArgument
  | star => star
  | property access => property access.unplaced
  | element identifier => element identifier.unplaced

def Aggregate.unplaced (aggregate : Aggregate) : Aggregate :=
  { aggregate with argument := aggregate.argument.unplaced }

def ReturnExpression.unplaced : ReturnExpression → ReturnExpression
  | property access => property access.unplaced
  | element identifier => element identifier.unplaced
  | aggregate value => aggregate value.unplaced

def ReturnItem.unplaced (item : ReturnItem) : ReturnItem :=
  { item with expression := item.expression.unplaced }

def Projection.unplaced (projection : Projection) : Projection :=
  { projection with items := projection.items.map ReturnItem.unplaced }

/-- The query with all its places forgotten. -/
def unplaced (query : DocumentGraph.Query) : DocumentGraph.Query where
  patterns := query.patterns.map Pattern.unplaced
  condition := query.condition.map Condition.unplaced
  projection := query.projection.unplaced

def Site.unplaced : Site → Site
  | node pattern => node pattern.unplaced
  | relationship pattern => relationship pattern.unplaced

theorem Site.introduced?_unplaced (site : Site) : site.unplaced.introduced? = site.introduced? := by
  cases site with
  | node pattern =>
      obtain ⟨binder, label, properties, position⟩ := pattern
      cases binder <;> rfl
  | relationship pattern =>
      obtain ⟨binder, type, direction, range, position⟩ := pattern
      cases binder <;> rfl

theorem Site.known_unplaced (site : Site) : site.unplaced.known = site.known := by
  cases site with
  | node pattern =>
      obtain ⟨binder, label, properties, position⟩ := pattern
      cases label <;> rfl
  | relationship pattern =>
      obtain ⟨binder, type, direction, range, position⟩ := pattern
      cases type <;> rfl

theorem sites_unplaced (patterns : List Pattern) :
    sites (patterns.map Pattern.unplaced) = (sites patterns).map Site.unplaced := by
  have hops (hops : List Hop) : (hops.map Hop.unplaced).flatMap Hop.sites =
      (hops.flatMap Hop.sites).map Site.unplaced := by
    rw [List.flatMap_map, List.map_flatMap]
    rfl
  have pattern (pattern : Pattern) : pattern.unplaced.sites = pattern.sites.map Site.unplaced :=
    congrArg (List.cons _) (hops pattern.hops)
  rw [sites, sites, List.flatMap_map, List.map_flatMap, funext pattern]

theorem Condition.uses_unplaced (condition : Condition) :
    condition.unplaced.uses = condition.uses.map Identifier.unplaced := by
  induction condition with
  | comparison left operator right => cases right <;> rfl
  | nullCheck access negated => rfl
  | not inner ih => exact ih
  | and left right leftIH rightIH => rw [unplaced, uses, uses, leftIH, rightIH, List.map_append]
  | or left right leftIH rightIH => rw [unplaced, uses, uses, leftIH, rightIH, List.map_append]

theorem ReturnExpression.uses_unplaced (expression : ReturnExpression) :
    expression.unplaced.uses = expression.uses.map Identifier.unplaced := by
  cases expression with
  | property access => rfl
  | element identifier => rfl
  | aggregate aggregate =>
      obtain ⟨function, distinct, argument⟩ := aggregate
      cases argument <;> rfl

theorem uses_unplaced (query : DocumentGraph.Query) :
    query.unplaced.uses = query.uses.map Identifier.unplaced := by
  obtain ⟨patterns, condition, projection⟩ := query
  have items : (projection.unplaced.items.flatMap (·.expression.uses)) =
      (projection.items.flatMap (·.expression.uses)).map Identifier.unplaced := by
    rw [Projection.unplaced, List.flatMap_map, List.map_flatMap]
    exact List.flatMap_congr fun item _ => item.expression.uses_unplaced
  have filter : ((condition.map Condition.unplaced).map Condition.uses).getD [] =
      ((condition.map Condition.uses).getD []).map Identifier.unplaced := by
    cases condition with
    | none => rfl
    | some condition => exact condition.uses_unplaced
  rw [uses, uses, List.map_append, ← items, ← filter]
  rfl

theorem introduced_unplaced (patterns : List Pattern) :
    (sites (patterns.map Pattern.unplaced)).filterMap Site.introduced? =
      (sites patterns).filterMap Site.introduced? := by
  rw [sites_unplaced, List.filterMap_map]
  exact congrArg (fun names => (sites patterns).filterMap names) (funext Site.introduced?_unplaced)

theorem consistent_unplaced_iff (patterns : List Pattern) :
    Consistent (sites (patterns.map Pattern.unplaced)) ↔ Consistent (sites patterns) := by
  have known : (∀ site ∈ sites (patterns.map Pattern.unplaced), site.known = true) ↔
      ∀ site ∈ sites patterns, site.known = true := by
    rw [sites_unplaced, List.forall_mem_map]
    simp only [Site.known_unplaced]
  constructor
  · rintro ⟨all, compatible⟩
    rw [introduced_unplaced] at compatible
    exact ⟨known.mp all, compatible⟩
  · rintro ⟨all, compatible⟩
    rw [← introduced_unplaced] at compatible
    exact ⟨known.mpr all, compatible⟩

theorem check_unplaced (query : DocumentGraph.Query) :
    query.unplaced.check = .ok () ↔ query.check = .ok () := by
  rw [check_iff_consistent, check_iff_consistent, uses_unplaced, List.forall_mem_map]
  exact and_congr (consistent_unplaced_iff query.patterns)
    (by rw [unplaced, introduced_unplaced]; rfl)

end DocumentGraph.Query
