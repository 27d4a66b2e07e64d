import DocumentGraph.Proofs.Evaluate.Run

namespace DocumentGraph.Query

/-! What the check of a query accepts.

A site is a position of a pattern, of a node or of a relationship.  The check enters the sites
in written order.  It accepts them exactly when their labels and types are known and their
names are pairwise compatible, so it does not depend on the order of the sites.
-/

/-- A position of a pattern. -/
inductive Site where
  | node (pattern : NodePattern)
  | relationship (pattern : RelationshipPattern)

namespace Site

def role : Site → Role
  | node _ => .node
  | relationship _ => .relationship

def binder : Site → Option Identifier
  | node pattern => pattern.binder
  | relationship pattern => pattern.binder

/-- The label or the type of the site, if it has one, is in the vocabulary. -/
def known : Site → Bool
  | node pattern => pattern.label.all fun label => isLabel label.name
  | relationship pattern => pattern.type.all fun type => isRelationshipType type.name

/-- The name that the site introduces, with its role. -/
def introduced? (site : Site) : Option (String × Role) :=
  site.binder.map fun identifier => (identifier.name, site.role)

end Site

def Hop.sites (hop : Hop) : List Site :=
  [.relationship hop.relationship, .node hop.node]

def Pattern.sites (pattern : Pattern) : List Site :=
  .node pattern.start :: pattern.hops.flatMap Hop.sites

def sites (patterns : List Pattern) : List Site :=
  patterns.flatMap Pattern.sites

/-- Only nodes share a name. -/
def Compatible (left right : String × Role) : Prop :=
  left.1 = right.1 → left.2 = .node ∧ right.2 = .node

/-- The sites ask for known labels and types only, and introduce compatible names. -/
structure Consistent (sites : List Site) : Prop where
  known : ∀ site ∈ sites, site.known = true
  compatible : (sites.filterMap Site.introduced?).Pairwise Compatible

theorem Compatible.symm {left right : String × Role} (compatible : Compatible left right) :
    Compatible right left := by
  intro same
  obtain ⟨first, second⟩ := compatible same.symm
  exact ⟨second, first⟩

instance : Std.Symm Compatible := ⟨fun _ _ => Compatible.symm⟩

/-- The order of the sites does not matter, nor what else they ask for. -/
theorem Consistent.perm {left right : List Site} (consistent : Consistent left)
    (names : (left.filterMap Site.introduced?).Perm (right.filterMap Site.introduced?))
    (known : ∀ site ∈ right, site.known = true) : Consistent right where
  known := known
  compatible := (names.pairwise_iff Compatible.symm).mp consistent.compatible

namespace Scope

variable {scope next : Scope} {done : List (String × Role)} {role : Role}
  {binder : Option Identifier} {site : Site}

def enter (scope : Scope) : Site → Except QueryError Scope
  | .node pattern => scope.node pattern
  | .relationship pattern => scope.relationship pattern

theorem foldlM_hop (hops : List Hop) (scope : Scope) :
    hops.foldlM Scope.hop scope = (hops.flatMap Hop.sites).foldlM enter scope := by
  induction hops generalizing scope with
  | nil => rfl
  | cons hop rest ih =>
      rw [List.foldlM_cons, List.flatMap_cons, List.foldlM_append, funext ih]
      simp [Hop.sites, Scope.hop, enter]

theorem foldlM_pattern (patterns : List Pattern) (scope : Scope) :
    patterns.foldlM Scope.pattern scope = (sites patterns).foldlM enter scope := by
  induction patterns generalizing scope with
  | nil => rfl
  | cons pattern rest ih =>
      have first : scope.pattern pattern = pattern.sites.foldlM enter scope := by
        rw [Scope.pattern, Pattern.sites, List.foldlM_cons, funext (foldlM_hop pattern.hops)]
        rfl
      rw [List.foldlM_cons, first, funext ih, sites, sites, List.flatMap_cons, List.foldlM_append]

/-- The scope holds the names that were introduced, with their roles. -/
def Holds (scope : Scope) (done : List (String × Role)) : Prop :=
  ∀ name role, scope.lookup name = some role ↔ (name, role) ∈ done

theorem holds_nil : Holds [] [] := by
  intro name role
  simp

theorem Holds.introduce (holds : scope.Holds done)
    (accepted : scope.introduce role binder = .ok next) :
    next.Holds (done ++ (binder.map fun identifier => (identifier.name, role)).toList) := by
  cases binder with
  | none =>
      obtain rfl := Except.ok.inj accepted
      simpa using holds
  | some identifier =>
      intro name other
      rw [Option.map_some, Option.toList_some, List.mem_append, List.mem_singleton, ← holds,
        Prod.mk.injEq]
      rcases introduce_some_cases accepted with ⟨fresh, rfl⟩ | ⟨known, rfl, rfl⟩
      · by_cases same : name = identifier.name
        · subst same
          simp [fresh, eq_comm]
        · have unequal : (name == identifier.name) = false := by simpa using same
          simp [List.lookup_cons, unequal, same]
      · constructor
        · exact .inl
        · rintro (early | ⟨rfl, rfl⟩)
          · exact early
          · exact known

theorem Holds.introduce_iff (holds : scope.Holds done) :
    (∃ next, scope.introduce role binder = .ok next) ↔
      ∀ new ∈ binder.map fun identifier => (identifier.name, role),
        ∀ earlier ∈ done, Compatible earlier new := by
  cases binder with
  | none => simp [Scope.introduce]
  | some identifier =>
      simp only [Option.map_some, Option.mem_some, forall_eq', Scope.introduce]
      constructor
      · rintro ⟨next, accepted⟩ ⟨name, existing⟩ member same
        change name = identifier.name at same
        subst same
        rw [← holds] at member
        simp only [member] at accepted
        split at accepted
        · assumption
        · contradiction
      · intro compatible
        cases found : scope.lookup identifier.name with
        | none => exact ⟨_, rfl⟩
        | some existing =>
            have both : existing = .node ∧ role = .node :=
              compatible _ ((holds _ _).mp found) rfl
            exact ⟨scope, if_pos both⟩

theorem enter_eq_ok_iff : scope.enter site = .ok next ↔
    site.known = true ∧ scope.introduce site.role site.binder = .ok next := by
  cases site with
  | node pattern =>
      unfold enter Scope.node Site.known Site.role Site.binder
      cases written : pattern.label with
      | none => simp [written]
      | some label =>
          cases known : isLabel label.name with
          | true => simp [written, known]
          | false => simp [written, known, throw, throwThe, MonadExceptOf.throw, bind, Except.bind]
  | relationship pattern =>
      unfold enter Scope.relationship Site.known Site.role Site.binder
      cases written : pattern.type with
      | none => simp [written]
      | some type =>
          cases known : isRelationshipType type.name with
          | true => simp [written, known]
          | false => simp [written, known, throw, throwThe, MonadExceptOf.throw, bind, Except.bind]

theorem Holds.enter (holds : scope.Holds done) (accepted : scope.enter site = .ok next) :
    next.Holds (done ++ site.introduced?.toList) :=
  holds.introduce (enter_eq_ok_iff.mp accepted).2

theorem Holds.enter_iff (holds : scope.Holds done) : (∃ next, scope.enter site = .ok next) ↔
    site.known = true ∧ ∀ new ∈ site.introduced?, ∀ earlier ∈ done, Compatible earlier new := by
  simp only [enter_eq_ok_iff, exists_and_left, holds.introduce_iff]
  rfl

/-- Entering sites one after the other looks at every pair of them once. -/
theorem Holds.foldlM_enter {sites : List Site} (holds : scope.Holds done)
    (accepted : sites.foldlM Scope.enter scope = .ok next) :
    next.Holds (done ++ sites.filterMap Site.introduced?) := by
  induction sites generalizing scope done with
  | nil =>
      obtain rfl := Except.ok.inj accepted
      simpa using holds
  | cons site rest ih =>
      obtain ⟨middle, entered, others⟩ := foldlM_cons_cases accepted
      have later := ih (holds.enter entered) others
      cases new : site.introduced? with
      | none => simpa [new] using later
      | some named => simpa [new] using later

theorem Holds.foldlM_enter_iff {sites : List Site} (holds : scope.Holds done)
    (early : done.Pairwise Compatible) :
    (∃ next, sites.foldlM Scope.enter scope = .ok next) ↔
      (∀ site ∈ sites, site.known = true) ∧
      (done ++ sites.filterMap Site.introduced?).Pairwise Compatible := by
  induction sites generalizing scope done with
  | nil => simp [early, pure, Except.pure]
  | cons site rest ih =>
      have names : done ++ (site :: rest).filterMap Site.introduced? =
          (done ++ site.introduced?.toList) ++ rest.filterMap Site.introduced? := by
        cases new : site.introduced? with
        | none => simp [new]
        | some named => simp [new]
      have enters : (done ++ site.introduced?.toList).Pairwise Compatible ↔
          ∀ new ∈ site.introduced?, ∀ earlier ∈ done, Compatible earlier new := by
        cases new : site.introduced? with
        | none => simp [early]
        | some named => simp [List.pairwise_append, early]
      rw [List.forall_mem_cons, names]
      constructor
      · rintro ⟨next, accepted⟩
        obtain ⟨middle, entered, others⟩ := foldlM_cons_cases accepted
        obtain ⟨known, compatible⟩ := holds.enter_iff.mp ⟨middle, entered⟩
        obtain ⟨restKnown, pairwise⟩ :=
          (ih (holds.enter entered) (enters.mpr compatible)).mp ⟨next, others⟩
        exact ⟨⟨known, restKnown⟩, pairwise⟩
      · rintro ⟨⟨known, restKnown⟩, pairwise⟩
        have first := (List.pairwise_append.mp pairwise).1
        obtain ⟨middle, entered⟩ := holds.enter_iff.mpr ⟨known, enters.mp first⟩
        obtain ⟨next, others⟩ := (ih (holds.enter entered) first).mpr ⟨restKnown, pairwise⟩
        refine ⟨next, ?_⟩
        rw [List.foldlM_cons, entered]
        exact others

theorem exists_ofPatterns_iff {patterns : List Pattern} :
    (∃ scope, ofPatterns patterns = .ok scope) ↔ Consistent (sites patterns) := by
  unfold ofPatterns
  rw [foldlM_pattern, holds_nil.foldlM_enter_iff List.Pairwise.nil, List.nil_append]
  exact ⟨fun both => ⟨both.1, both.2⟩, fun consistent => ⟨consistent.known, consistent.compatible⟩⟩

theorem holds_ofPatterns {patterns : List Pattern} (accepted : ofPatterns patterns = .ok scope) :
    scope.Holds ((sites patterns).filterMap Site.introduced?) := by
  unfold ofPatterns at accepted
  rw [foldlM_pattern] at accepted
  simpa using holds_nil.foldlM_enter accepted

end Scope

/-- A query passes the check when its sites are consistent and introduce every name that it
uses. -/
theorem check_iff_consistent {query : DocumentGraph.Query} : query.check = .ok () ↔
    Consistent (sites query.patterns) ∧ ∀ identifier ∈ query.uses,
      ∃ role, (identifier.name, role) ∈ (sites query.patterns).filterMap Site.introduced? := by
  rw [check_eq_ok_iff]
  constructor
  · rintro ⟨scope, accepted, bound⟩
    refine ⟨Scope.exists_ofPatterns_iff.mp ⟨scope, accepted⟩, fun identifier used => ?_⟩
    obtain ⟨role, found⟩ := Option.isSome_iff_exists.mp (bound identifier used)
    exact ⟨role, (Scope.holds_ofPatterns accepted _ _).mp found⟩
  · rintro ⟨consistent, bound⟩
    obtain ⟨scope, accepted⟩ := Scope.exists_ofPatterns_iff.mpr consistent
    refine ⟨scope, accepted, fun identifier used => ?_⟩
    obtain ⟨role, member⟩ := bound identifier used
    rw [(Scope.holds_ofPatterns accepted _ _).mpr member]
    rfl

end DocumentGraph.Query
