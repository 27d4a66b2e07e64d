import DocumentGraph.Proofs.Query.Site

namespace DocumentGraph.Query

/-! The first violation of a query.

The check enters the sites one after the other and then asks for the names that are used.  So it
refuses a query at the first site that does not go together with the sites in front of it or, if
there is none, at the first use of a name that no site introduces.
-/

/-- The labels and types of the sites are in the vocabulary, and the name of a relationship belongs
to no other site. -/
structure Legal (sites : List Site) : Prop where
  labels : ∀ pattern, .node pattern ∈ sites → ∀ label ∈ pattern.label, label.name ∈ Query.labels
  types : ∀ pattern, .relationship pattern ∈ sites → ∀ type ∈ pattern.type,
    type.name ∈ relationshipTypes
  names : ∀ before pattern behind, sites = before ++ .relationship pattern :: behind →
    ∀ identifier ∈ pattern.binder, ∀ other ∈ before ++ behind, ∀ named ∈ other.binder,
      named.name ≠ identifier.name

/-- A site introduces the name of the identifier. -/
def Names (sites : List Site) (identifier : Identifier) : Prop :=
  ∃ site ∈ sites, ∃ named ∈ site.binder, named.name = identifier.name

/-- The identifier stands in the condition. -/
inductive Condition.Mentions (identifier : Identifier) : Condition → Prop where
  | left {access : PropertyAccess} {operator : ComparisonOperator} {right : Operand}
      (owned : access.owner = identifier) : Mentions identifier (.comparison access operator right)
  | right {left : PropertyAccess} {operator : ComparisonOperator} {access : PropertyAccess}
      (owned : access.owner = identifier) :
      Mentions identifier (.comparison left operator (.property access))
  | nullCheck {access : PropertyAccess} {negated : Bool} (owned : access.owner = identifier) :
      Mentions identifier (.nullCheck access negated)
  | not {inner : Condition} (inside : Mentions identifier inner) : Mentions identifier (.not inner)
  | andLeft {left right : Condition} (inside : Mentions identifier left) :
      Mentions identifier (.and left right)
  | andRight {left right : Condition} (inside : Mentions identifier right) :
      Mentions identifier (.and left right)
  | orLeft {left right : Condition} (inside : Mentions identifier left) :
      Mentions identifier (.or left right)
  | orRight {left right : Condition} (inside : Mentions identifier right) :
      Mentions identifier (.or left right)

/-- The identifier stands in the projected expression. -/
inductive ReturnExpression.Mentions (identifier : Identifier) : ReturnExpression → Prop where
  | property {access : PropertyAccess} (owned : access.owner = identifier) :
      Mentions identifier (.property access)
  | element : Mentions identifier (.element identifier)
  | aggregateProperty {aggregate : Aggregate} {access : PropertyAccess}
      (taken : aggregate.argument = .property access) (owned : access.owner = identifier) :
      Mentions identifier (.aggregate aggregate)
  | aggregateElement {aggregate : Aggregate} (taken : aggregate.argument = .element identifier) :
      Mentions identifier (.aggregate aggregate)

/-- The sites of the query are legal and introduce the names that the query uses. -/
structure Lawful (query : DocumentGraph.Query) : Prop where
  sites : Legal (sites query.patterns)
  condition : ∀ condition ∈ query.condition, ∀ identifier, condition.Mentions identifier →
    Names (Query.sites query.patterns) identifier
  projection : ∀ item ∈ query.projection.items, ∀ identifier, item.expression.Mentions identifier →
    Names (Query.sites query.patterns) identifier

/-- What is wrong with a site behind others that are legal: its label or type is unknown or, if it
is not, its name belongs to an earlier site and one of the two is a relationship. -/
inductive Site.Violates (before : List Site) : Site → QueryError → Prop where
  | label {pattern : NodePattern} {label : Identifier} (written : pattern.label = some label)
      (unknown : label.name ∉ Query.labels) :
      Violates before (.node pattern) (.unknownLabel label.name label.position)
  | type {pattern : RelationshipPattern} {type : Identifier} (written : pattern.type = some type)
      (unknown : type.name ∉ relationshipTypes) :
      Violates before (.relationship pattern) (.unknownRelationshipType type.name type.position)
  | name {site other : Site} {identifier named : Identifier} (known : site.known = true)
      (given : site.binder = some identifier) (earlier : other ∈ before)
      (taken : other.binder = some named) (same : named.name = identifier.name)
      (clash : other.role = .relationship ∨ site.role = .relationship) :
      Violates before site
        (.duplicateBinding identifier.name other.role.description identifier.position)

/-- The first of some identifiers whose name no site introduces. -/
inductive Unnamed (sites : List Site) (identifiers : List Identifier) : QueryError → Prop where
  | intro {before behind : List Identifier} {identifier : Identifier}
      (split : identifiers = before ++ identifier :: behind)
      (named : ∀ earlier ∈ before, Names sites earlier) (unnamed : ¬ Names sites identifier) :
      Unnamed sites identifiers (.unboundVariable identifier.name identifier.position)

/-- The first violation of a query: of its sites, else of its condition, else of its projection. -/
inductive Violates (query : DocumentGraph.Query) : QueryError → Prop where
  | site {before behind : List Site} {site : Site} {error : QueryError}
      (split : sites query.patterns = before ++ site :: behind) (legal : Legal before)
      (violated : site.Violates before error) : Violates query error
  | condition {condition : Condition} {error : QueryError} (legal : Legal (sites query.patterns))
      (given : query.condition = some condition)
      (violated : Unnamed (sites query.patterns) condition.uses error) : Violates query error
  | projection {error : QueryError} (legal : Legal (sites query.patterns))
      (accepted : ∀ condition ∈ query.condition, ∀ identifier, condition.Mentions identifier →
        Names (sites query.patterns) identifier)
      (violated : Unnamed (sites query.patterns)
        (query.projection.items.flatMap (·.expression.uses)) error) : Violates query error

variable {sites before behind : List Site} {site : Site} {identifier : Identifier}

theorem Site.known_node_iff {pattern : NodePattern} : (Site.node pattern).known = true ↔
    ∀ label ∈ pattern.label, label.name ∈ Query.labels := by
  simp [known, Option.all_eq_true, isLabel]

theorem Site.known_relationship_iff {pattern : RelationshipPattern} :
    (Site.relationship pattern).known = true ↔
      ∀ type ∈ pattern.type, type.name ∈ relationshipTypes := by
  simp [known, Option.all_eq_true, isRelationshipType]

theorem Site.introduced?_eq_some_iff {named : String × Role} : site.introduced? = some named ↔
    ∃ identifier, site.binder = some identifier ∧ named = (identifier.name, site.role) := by
  simp only [introduced?, Option.map_eq_some_iff, @eq_comm _ named]

/-- Two sites with a name in common are nodes. -/
def Site.Compatible (left right : Site) : Prop :=
  ∀ first ∈ left.binder, ∀ second ∈ right.binder, first.name = second.name →
    left.role = .node ∧ right.role = .node

theorem pairwise_introduced_iff : (sites.filterMap Site.introduced?).Pairwise Query.Compatible ↔
    sites.Pairwise Site.Compatible := by
  rw [List.pairwise_filterMap]
  refine List.Pairwise.iff fun {left right} => ?_
  simp only [Site.introduced?_eq_some_iff, Site.Compatible, Query.Compatible]
  constructor
  · intro compatible first given second taken same
    exact compatible _ ⟨first, given, rfl⟩ _ ⟨second, taken, rfl⟩ same
  · rintro compatible _ ⟨first, given, rfl⟩ _ ⟨second, taken, rfl⟩ same
    exact compatible first given second taken same

theorem pairwise_compatible_iff : sites.Pairwise Site.Compatible ↔
    ∀ before pattern behind, sites = before ++ .relationship pattern :: behind →
      ∀ identifier ∈ pattern.binder, ∀ other ∈ before ++ behind, ∀ named ∈ other.binder,
        named.name ≠ identifier.name := by
  constructor
  · rintro compatible before pattern behind rfl identifier given other member named taken same
    obtain ⟨_, inside, across⟩ := List.pairwise_append.mp compatible
    have clash : Role.relationship = Role.node := by
      rcases List.mem_append.mp member with early | late
      · exact (across other early _ List.mem_cons_self named taken identifier given same).2
      · exact ((List.pairwise_cons.mp inside).1 other late identifier given named taken same.symm).1
    contradiction
  · intro alone
    induction sites with
    | nil => exact .nil
    | cons first rest ih =>
        refine .cons (fun later member named taken identifier given same => ?_) (ih ?_)
        · cases first with
          | relationship pattern =>
              exact absurd same.symm
                (alone [] pattern rest rfl named taken later member identifier given)
          | node pattern =>
              cases later with
              | node other => exact ⟨rfl, rfl⟩
              | relationship other =>
                  obtain ⟨front, back, rfl⟩ := List.append_of_mem member
                  exact absurd same (alone (.node pattern :: front) other back rfl identifier given
                    (.node pattern) List.mem_cons_self named taken)
        · rintro front pattern back rfl identifier given other member
          exact alone (first :: front) pattern back rfl identifier given other
            (List.mem_cons_of_mem first member)

theorem legal_iff_consistent : Legal sites ↔ Consistent sites := by
  constructor
  · rintro ⟨labels, types, names⟩
    refine ⟨fun site member => ?_, ?_⟩
    · cases site with
      | node pattern => exact Site.known_node_iff.mpr (labels pattern member)
      | relationship pattern => exact Site.known_relationship_iff.mpr (types pattern member)
    · exact pairwise_introduced_iff.mpr (pairwise_compatible_iff.mpr names)
  · rintro ⟨known, compatible⟩
    exact {
      labels := fun pattern member => Site.known_node_iff.mp (known _ member)
      types := fun pattern member => Site.known_relationship_iff.mp (known _ member)
      names := pairwise_compatible_iff.mp (pairwise_introduced_iff.mp compatible) }

theorem names_iff_introduced : Names sites identifier ↔
    ∃ role, (identifier.name, role) ∈ sites.filterMap Site.introduced? := by
  simp only [List.mem_filterMap, Site.introduced?_eq_some_iff, Prod.mk.injEq, Names]
  constructor
  · rintro ⟨site, member, named, given, same⟩
    exact ⟨site.role, site, member, named, given, same.symm, rfl⟩
  · rintro ⟨_, site, member, named, given, same, _⟩
    exact ⟨site, member, named, given, same.symm⟩

theorem Condition.mem_uses_iff {condition : Condition} :
    identifier ∈ condition.uses ↔ condition.Mentions identifier := by
  constructor
  · intro used
    induction condition with
    | comparison left operator right =>
        cases right with
        | property access =>
            rcases List.mem_pair.mp used with rfl | rfl
            · exact .left rfl
            · exact .right rfl
        | literal value =>
            obtain rfl := List.mem_singleton.mp used
            exact .left rfl
    | nullCheck access negated =>
        obtain rfl := List.mem_singleton.mp used
        exact .nullCheck rfl
    | not inner ih => exact .not (ih used)
    | and left right leftIH rightIH =>
        rcases List.mem_append.mp used with first | second
        · exact .andLeft (leftIH first)
        · exact .andRight (rightIH second)
    | or left right leftIH rightIH =>
        rcases List.mem_append.mp used with first | second
        · exact .orLeft (leftIH first)
        · exact .orRight (rightIH second)
  · intro mentioned
    induction mentioned with
    | @left access operator right owned => cases right <;> simp [uses, owned]
    | right owned => simp [uses, owned]
    | nullCheck owned => simp [uses, owned]
    | not _ ih => exact ih
    | andLeft _ ih | orLeft _ ih => exact List.mem_append_left _ ih
    | andRight _ ih | orRight _ ih => exact List.mem_append_right _ ih

theorem ReturnExpression.mem_uses_iff {expression : ReturnExpression} :
    identifier ∈ expression.uses ↔ expression.Mentions identifier := by
  constructor
  · intro used
    cases expression with
    | property access =>
        obtain rfl := List.mem_singleton.mp used
        exact .property rfl
    | element other =>
        obtain rfl := List.mem_singleton.mp used
        exact .element
    | aggregate aggregate =>
        change identifier ∈ aggregate.argument.uses at used
        cases taken : aggregate.argument with
        | star => simp [taken, AggregateArgument.uses] at used
        | property access =>
            rw [taken] at used
            obtain rfl := List.mem_singleton.mp used
            exact .aggregateProperty taken rfl
        | element other =>
            rw [taken] at used
            obtain rfl := List.mem_singleton.mp used
            exact .aggregateElement taken
  · intro mentioned
    cases mentioned with
    | property owned => simp [uses, owned]
    | element => simp [uses]
    | aggregateProperty taken owned => simp [uses, taken, AggregateArgument.uses, owned]
    | aggregateElement taken => simp [uses, taken, AggregateArgument.uses]

theorem forall_condition_uses_iff {given : Option Condition} {accepts : Identifier → Prop} :
    (∀ identifier ∈ (given.map Condition.uses).getD [], accepts identifier) ↔
      ∀ condition ∈ given, ∀ identifier, condition.Mentions identifier → accepts identifier := by
  cases given with
  | none => simp
  | some condition => simp [Condition.mem_uses_iff]

theorem forall_projection_uses_iff {items : List ReturnItem} {accepts : Identifier → Prop} :
    (∀ identifier ∈ items.flatMap (·.expression.uses), accepts identifier) ↔
      ∀ item ∈ items, ∀ identifier, item.expression.Mentions identifier → accepts identifier := by
  simp only [List.forall_mem_flatMap, ReturnExpression.mem_uses_iff]

theorem check_iff_lawful {query : DocumentGraph.Query} : query.check = .ok () ↔ query.Lawful := by
  rw [check_iff_consistent, ← legal_iff_consistent]
  simp only [← names_iff_introduced]
  rw [Query.uses, List.forall_mem_append, forall_condition_uses_iff, forall_projection_uses_iff]
  exact ⟨fun ⟨legal, condition, projection⟩ => ⟨legal, condition, projection⟩,
    fun ⟨legal, condition, projection⟩ => ⟨legal, condition, projection⟩⟩

section Refusal

variable {α ε σ : Type} {error : ε}

theorem bind_eq_error_iff {first : Except ε α} {next : α → Except ε σ} :
    (first >>= next) = .error error ↔
      first = .error error ∨ ∃ value, first = .ok value ∧ next value = .error error := by
  cases first with
  | error reason => simp [bind, Except.bind]
  | ok value => simp [bind, Except.bind]

/-- A run of steps fails at the first step that does. -/
theorem foldlM_eq_error_iff {step : σ → α → Except ε σ} {values : List α} {start : σ} :
    values.foldlM step start = .error error ↔ ∃ before value behind middle,
      values = before ++ value :: behind ∧ before.foldlM step start = .ok middle ∧
        step middle value = .error error := by
  constructor
  · intro failed
    induction values generalizing start with
    | nil => contradiction
    | cons first rest ih =>
        rw [List.foldlM_cons] at failed
        cases taken : step start first with
        | error reason =>
            rw [taken] at failed
            exact ⟨[], first, rest, start, rfl, rfl, taken.trans failed⟩
        | ok next =>
            rw [taken] at failed
            obtain ⟨before, value, behind, middle, rfl, reached, refused⟩ := ih failed
            refine ⟨first :: before, value, behind, middle, rfl, ?_, refused⟩
            rw [List.foldlM_cons, taken]
            exact reached
  · rintro ⟨before, value, behind, middle, rfl, reached, refused⟩
    rw [List.foldlM_append, reached]
    change (value :: behind).foldlM step middle = .error error
    rw [List.foldlM_cons, refused]
    rfl

theorem forM_eq_foldlM (accepts : α → Except ε Unit) (values : List α) :
    forM values accepts = values.foldlM (fun _ value => accepts value) () := by
  induction values with
  | nil => rfl
  | cons first rest ih =>
      rw [List.forM_cons, List.foldlM_cons]
      exact bind_congr fun _ => ih

theorem forM_eq_error_iff {accepts : α → Except ε Unit} {values : List α} :
    forM values accepts = .error error ↔ ∃ before value behind,
      values = before ++ value :: behind ∧ forM before accepts = .ok () ∧
        accepts value = .error error := by
  simp only [forM_eq_foldlM, foldlM_eq_error_iff]
  exact exists₃_congr fun before value behind => ⟨fun ⟨_, found⟩ => found, fun found => ⟨(), found⟩⟩

end Refusal

namespace Scope

variable {scope : Scope} {done : List (String × Role)} {role : Role} {binder : Option Identifier}
  {error : QueryError}

theorem Holds.introduce_eq_error_iff (holds : scope.Holds done) :
    scope.introduce role binder = .error error ↔ ∃ identifier existing,
      binder = some identifier ∧ (identifier.name, existing) ∈ done ∧
      (existing = .relationship ∨ role = .relationship) ∧
      error = .duplicateBinding identifier.name existing.description identifier.position := by
  have clash (existing : Role) : ¬ (existing = .node ∧ role = .node) ↔
      existing = .relationship ∨ role = .relationship := by
    cases existing <;> cases role <;> simp
  constructor
  · intro refused
    cases binder with
    | none => contradiction
    | some identifier =>
        unfold Scope.introduce at refused
        cases found : scope.lookup identifier.name with
        | none => simp [found] at refused
        | some existing =>
            simp only [found] at refused
            split at refused
            · contradiction
            · rename_i apart
              exact ⟨identifier, existing, rfl, (holds _ _).mp found, (clash existing).mp apart,
                (Except.error.inj refused).symm⟩
  · rintro ⟨identifier, existing, rfl, member, apart, rfl⟩
    simp only [Scope.introduce, (holds _ _).mpr member]
    rw [if_neg ((clash existing).mpr apart)]

/-- What a pattern asks for has to be in the vocabulary before anything else is done. -/
theorem asks_eq_error_iff {asked : Option Identifier} {vocabulary : List String}
    {refusal : Identifier → QueryError} {rest : Except QueryError Scope} :
    (do
      if let some name := asked then
        unless vocabulary.contains name.name do
          throw (refusal name)
      rest) = .error error ↔
      (∃ name, asked = some name ∧ name.name ∉ vocabulary ∧ error = refusal name) ∨
        asked.all (fun name => vocabulary.contains name.name) = true ∧ rest = .error error := by
  cases asked with
  | none => simp
  | some name =>
      by_cases listed : name.name ∈ vocabulary
      · simp [listed]
      · simp [listed, throw, throwThe, MonadExceptOf.throw, bind, Except.bind, eq_comm]

theorem enter_node_eq_error_iff {pattern : NodePattern} :
    scope.enter (.node pattern) = .error error ↔
      (∃ label, pattern.label = some label ∧ label.name ∉ Query.labels ∧
        error = .unknownLabel label.name label.position) ∨
      (Site.node pattern).known = true ∧ scope.introduce .node pattern.binder = .error error :=
  asks_eq_error_iff

theorem enter_relationship_eq_error_iff {pattern : RelationshipPattern} :
    scope.enter (.relationship pattern) = .error error ↔
      (∃ type, pattern.type = some type ∧ type.name ∉ relationshipTypes ∧
        error = .unknownRelationshipType type.name type.position) ∨
      (Site.relationship pattern).known = true ∧
        scope.introduce .relationship pattern.binder = .error error :=
  asks_eq_error_iff

theorem violates_name_of_introduce
    (holds : scope.Holds (before.filterMap Site.introduced?)) (known : site.known = true)
    (refused : scope.introduce site.role site.binder = .error error) :
    site.Violates before error := by
  obtain ⟨identifier, existing, given, member, clash, rfl⟩ :=
    holds.introduce_eq_error_iff.mp refused
  obtain ⟨other, earlier, introduced⟩ := List.mem_filterMap.mp member
  obtain ⟨named, taken, equal⟩ := Site.introduced?_eq_some_iff.mp introduced
  obtain ⟨same, rfl⟩ := Prod.mk.inj equal
  exact .name known given earlier taken same.symm clash

/-- A site is refused for what it violates. -/
theorem Holds.enter_eq_error_iff (holds : scope.Holds (before.filterMap Site.introduced?)) :
    scope.enter site = .error error ↔ site.Violates before error := by
  constructor
  · intro refused
    cases site with
    | node pattern =>
        rcases enter_node_eq_error_iff.mp refused with
          ⟨label, written, unknown, rfl⟩ | ⟨known, refused⟩
        · exact .label written unknown
        · exact violates_name_of_introduce holds known refused
    | relationship pattern =>
        rcases enter_relationship_eq_error_iff.mp refused with
          ⟨type, written, unknown, rfl⟩ | ⟨known, refused⟩
        · exact .type written unknown
        · exact violates_name_of_introduce holds known refused
  · intro violated
    cases violated with
    | label written unknown =>
        exact enter_node_eq_error_iff.mpr (.inl ⟨_, written, unknown, rfl⟩)
    | type written unknown =>
        exact enter_relationship_eq_error_iff.mpr (.inl ⟨_, written, unknown, rfl⟩)
    | @name site other identifier named known given earlier taken same clash =>
        have introduced : other.introduced? = some (identifier.name, other.role) :=
          Site.introduced?_eq_some_iff.mpr ⟨named, taken, by rw [same]⟩
        have refused : scope.introduce site.role site.binder = .error (.duplicateBinding
            identifier.name other.role.description identifier.position) :=
          holds.introduce_eq_error_iff.mpr ⟨identifier, other.role, given,
            List.mem_filterMap.mpr ⟨other, earlier, introduced⟩, clash, rfl⟩
        cases site with
        | node pattern => exact enter_node_eq_error_iff.mpr (.inr ⟨known, refused⟩)
        | relationship pattern =>
            exact enter_relationship_eq_error_iff.mpr (.inr ⟨known, refused⟩)

theorem holds_sites {next : Scope} (accepted : sites.foldlM enter [] = .ok next) :
    next.Holds (sites.filterMap Site.introduced?) := by
  simpa using holds_nil.foldlM_enter accepted

theorem exists_foldlM_enter_iff : (∃ next, sites.foldlM enter [] = .ok next) ↔ Legal sites := by
  rw [holds_nil.foldlM_enter_iff .nil, List.nil_append, legal_iff_consistent]
  exact ⟨fun ⟨known, compatible⟩ => ⟨known, compatible⟩,
    fun ⟨known, compatible⟩ => ⟨known, compatible⟩⟩

theorem ofPatterns_eq_error_iff {patterns : List Pattern} : ofPatterns patterns = .error error ↔
    ∃ before site behind, Query.sites patterns = before ++ site :: behind ∧ Legal before ∧
      site.Violates before error := by
  rw [ofPatterns, foldlM_pattern, foldlM_eq_error_iff]
  constructor
  · rintro ⟨before, site, behind, middle, split, reached, refused⟩
    exact ⟨before, site, behind, split, exists_foldlM_enter_iff.mp ⟨middle, reached⟩,
      (holds_sites reached).enter_eq_error_iff.mp refused⟩
  · rintro ⟨before, site, behind, split, legal, violated⟩
    obtain ⟨middle, reached⟩ := exists_foldlM_enter_iff.mpr legal
    exact ⟨before, site, behind, middle, split, reached,
      (holds_sites reached).enter_eq_error_iff.mpr violated⟩

theorem Holds.isSome_lookup_iff (holds : scope.Holds (sites.filterMap Site.introduced?)) :
    (scope.lookup identifier.name).isSome ↔ Names sites identifier := by
  rw [Option.isSome_iff_exists, names_iff_introduced]
  exact exists_congr fun role => holds identifier.name role

theorem Holds.forM_require_eq_ok_iff (holds : scope.Holds (sites.filterMap Site.introduced?))
    {identifiers : List Identifier} : forM identifiers scope.require = .ok () ↔
      ∀ identifier ∈ identifiers, Names sites identifier := by
  rw [Query.forM_require_eq_ok_iff]
  exact forall₂_congr fun identifier _ => holds.isSome_lookup_iff

theorem Holds.forM_require_eq_error_iff (holds : scope.Holds (sites.filterMap Site.introduced?))
    {identifiers : List Identifier} : forM identifiers scope.require = .error error ↔
      Unnamed sites identifiers error := by
  have require_eq_error_iff (identifier : Identifier) : scope.require identifier = .error error ↔
      ¬ Names sites identifier ∧ error = .unboundVariable identifier.name identifier.position := by
    rw [← holds.isSome_lookup_iff, Scope.require]
    split
    · rename_i introduced
      simp [introduced]
    · rename_i missing
      simp [missing, eq_comm]
  rw [forM_eq_error_iff]
  constructor
  · rintro ⟨before, identifier, behind, split, reached, refused⟩
    obtain ⟨unnamed, rfl⟩ := (require_eq_error_iff identifier).mp refused
    exact ⟨split, holds.forM_require_eq_ok_iff.mp reached, unnamed⟩
  · rintro ⟨split, named, unnamed⟩
    exact ⟨_, _, _, split, holds.forM_require_eq_ok_iff.mpr named,
      (require_eq_error_iff _).mpr ⟨unnamed, rfl⟩⟩

end Scope

/-- The uses in the condition come before those in the projection. -/
theorem forM_uses (query : DocumentGraph.Query) (accepts : Identifier → Except QueryError Unit) :
    forM query.uses accepts =
      forM ((query.condition.map Condition.uses).getD []) accepts >>= fun _ =>
        forM (query.projection.items.flatMap (·.expression.uses)) accepts :=
  List.forM_append

theorem check_eq_error_iff {query : DocumentGraph.Query} {error : QueryError} :
    query.check = .error error ↔ query.Violates error := by
  rw [check, bind_eq_error_iff]
  constructor
  · rintro (refused | ⟨scope, introduced, refused⟩)
    · obtain ⟨before, site, behind, split, legal, violated⟩ :=
        Scope.ofPatterns_eq_error_iff.mp refused
      exact .site split legal violated
    · have holds := Scope.holds_ofPatterns introduced
      have legal := legal_iff_consistent.mpr (Scope.exists_ofPatterns_iff.mp ⟨scope, introduced⟩)
      rcases bind_eq_error_iff.mp ((forM_uses query _).symm.trans refused) with
        filtered | ⟨_, filtered, projected⟩
      · cases given : query.condition with
        | none =>
            rw [given] at filtered
            contradiction
        | some condition =>
            rw [given] at filtered
            exact .condition legal given (holds.forM_require_eq_error_iff.mp filtered)
      · exact .projection legal (forall_condition_uses_iff.mp
          (holds.forM_require_eq_ok_iff.mp filtered)) (holds.forM_require_eq_error_iff.mp projected)
  · intro violates
    cases violates with
    | site split legal violated =>
        exact .inl (Scope.ofPatterns_eq_error_iff.mpr ⟨_, _, _, split, legal, violated⟩)
    | condition legal given violated =>
        obtain ⟨scope, introduced⟩ :=
          Scope.exists_ofPatterns_iff.mpr (legal_iff_consistent.mp legal)
        have holds := Scope.holds_ofPatterns introduced
        refine .inr ⟨scope, introduced, (forM_uses query _).trans (bind_eq_error_iff.mpr (.inl ?_))⟩
        rw [given]
        exact holds.forM_require_eq_error_iff.mpr violated
    | projection legal accepted violated =>
        obtain ⟨scope, introduced⟩ :=
          Scope.exists_ofPatterns_iff.mpr (legal_iff_consistent.mp legal)
        have holds := Scope.holds_ofPatterns introduced
        have filtered := holds.forM_require_eq_ok_iff.mpr (forall_condition_uses_iff.mpr accepted)
        have refused := holds.forM_require_eq_error_iff.mpr violated
        exact .inr ⟨scope, introduced,
          (forM_uses query _).trans (bind_eq_error_iff.mpr (.inr ⟨(), filtered, refused⟩))⟩

/-- The check accepts exactly the lawful queries, and refuses another one for its first violation:
of its sites, else of its condition, else of its projection. -/
theorem check_outcome (query : DocumentGraph.Query) :
    (query.check = .ok () ↔ query.Lawful) ∧
    ∀ error, query.check = .error error ↔ query.Violates error :=
  ⟨check_iff_lawful, fun _ => check_eq_error_iff⟩

end DocumentGraph.Query
