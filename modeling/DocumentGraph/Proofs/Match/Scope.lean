import DocumentGraph.Proofs.Match.Extension
import DocumentGraph.Query.Scope

namespace DocumentGraph

open Match (Bindings Element Partial Trail)
open Query (Hop Identifier NodePattern Pattern QueryError RelationshipPattern Role Scope)

/-! What the scope of a query says about its binding sets.

The scope that the patterns introduce gives every name its role.  Every binding set that the
patterns find binds exactly those names, each to an element of its role (`describes_patterns`),
whatever the graph holds.
-/

def Match.Element.role : Element → Role
  | node _ => .node
  | edge _ => .relationship

namespace Query.Scope

/-- The scope has the names that are bound, with the roles of their elements. -/
def Describes (scope : Scope) (bindings : Bindings) : Prop :=
  ∀ name, scope.lookup name = (bindings.lookup name).map Element.role

variable {scope middle next : Scope} {bindings : Bindings} {role : Role} {identifier : Identifier}
  {binder : Option Identifier}

theorem describes_nil : Describes [] [] := fun _ => rfl

theorem introduce_some_cases (introduced : scope.introduce role (some identifier) = .ok next) :
    (scope.lookup identifier.name = none ∧ next = (identifier.name, role) :: scope) ∨
    (scope.lookup identifier.name = some .node ∧ role = .node ∧ next = scope) := by
  unfold introduce at introduced
  cases known : scope.lookup identifier.name with
  | none =>
      simp only [known, Except.ok.injEq] at introduced
      exact .inl ⟨rfl, introduced.symm⟩
  | some existing =>
      simp only [known] at introduced
      split at introduced
      · rename_i both
        simp only [Except.ok.injEq] at introduced
        exact .inr ⟨by rw [both.1], both.2, introduced.symm⟩
      · contradiction

/-- A relationship takes a new name. -/
theorem lookup_of_introduce_relationship
    (introduced : scope.introduce .relationship (some identifier) = .ok next) :
    scope.lookup identifier.name = none := by
  rcases introduce_some_cases introduced with ⟨fresh, _⟩ | ⟨_, impossible, _⟩
  · exact fresh
  · contradiction

theorem Describes.bind (described : scope.Describes bindings) (element : Element)
    (introduced : scope.introduce element.role binder = .ok next) :
    next.Describes (bindings.bind binder element) := by
  cases binder with
  | none =>
      simp only [introduce, Except.ok.injEq] at introduced
      subst introduced
      exact described
  | some identifier =>
      intro name
      by_cases same : name = identifier.name
      · subst same
        rw [Bindings.bind, Ordered.lookup_put_self]
        rcases introduce_some_cases introduced with ⟨_, rfl⟩ | ⟨known, node, rfl⟩
        · simp
        · rw [known, Option.map_some, node]
      · rw [Bindings.bind, Ordered.lookup_put_of_ne same, ← described name]
        rcases introduce_some_cases introduced with ⟨_, rfl⟩ | ⟨_, _, rfl⟩
        · have unequal : (name == identifier.name) = false := by simpa using same
          simp [List.lookup_cons, unequal]
        · rfl

theorem introduce_of_node {pattern : NodePattern} (accepted : scope.node pattern = .ok next) :
    scope.introduce .node pattern.binder = .ok next := by
  unfold Scope.node at accepted
  cases written : pattern.label with
  | none => simpa [written] using accepted
  | some label =>
      cases known : isLabel label.name with
      | true => simpa [written, known] using accepted
      | false => simp [written, known, throw, throwThe, MonadExceptOf.throw, bind, Except.bind] at accepted

theorem introduce_of_relationship {pattern : RelationshipPattern}
    (accepted : scope.relationship pattern = .ok next) :
    scope.introduce .relationship pattern.binder = .ok next := by
  unfold Scope.relationship at accepted
  cases written : pattern.type with
  | none => simpa [written] using accepted
  | some type =>
      cases known : isRelationshipType type.name with
      | true => simpa [written, known] using accepted
      | false => simp [written, known, throw, throwThe, MonadExceptOf.throw, bind, Except.bind] at accepted

theorem hop_cases {hop : Hop} (accepted : scope.hop hop = .ok next) :
    ∃ middle, scope.introduce .relationship hop.relationship.binder = .ok middle ∧
      middle.introduce .node hop.node.binder = .ok next := by
  unfold Scope.hop at accepted
  cases first : scope.relationship hop.relationship with
  | error reason => simp [first, bind, Except.bind] at accepted
  | ok middle =>
      simp only [first, bind, Except.bind] at accepted
      exact ⟨middle, introduce_of_relationship first, introduce_of_node accepted⟩

theorem pattern_cases {pattern : Pattern} (accepted : scope.pattern pattern = .ok next) :
    ∃ middle, scope.introduce .node pattern.start.binder = .ok middle ∧
      pattern.hops.foldlM Scope.hop middle = .ok next := by
  unfold Scope.pattern at accepted
  cases first : scope.node pattern.start with
  | error reason => simp [first, bind, Except.bind] at accepted
  | ok middle =>
      simp only [first, bind, Except.bind] at accepted
      exact ⟨middle, introduce_of_node first, accepted⟩

theorem foldlM_cons_cases {α : Type} {step : Scope → α → Except QueryError Scope} {first : α}
    {rest : List α} (accepted : (first :: rest).foldlM step scope = .ok next) :
    ∃ middle, step scope first = .ok middle ∧ rest.foldlM step middle = .ok next := by
  rw [List.foldlM_cons] at accepted
  cases taken : step scope first with
  | error reason => simp [taken, bind, Except.bind] at accepted
  | ok middle =>
      simp only [taken, bind, Except.bind] at accepted
      exact ⟨middle, rfl, accepted⟩

/-- The names that a hop introduces are those that the hop binds. -/
theorem Describes.extend {hop : Hop} {current : Partial}
    (described : scope.Describes current.bindings) (accepted : scope.hop hop = .ok next)
    (edge : Edge) (node : Node) : next.Describes (current.extend hop edge node).bindings := by
  obtain ⟨middle, relationship, target⟩ := hop_cases accepted
  exact (described.bind (.edge edge) relationship).bind (.node node) target

/-- A variable that is bound already adds nothing to the scope. -/
theorem Describes.eq_of_bound (described : scope.Describes bindings) {element : Element}
    (bound : binder.bind bindings.element? = some element)
    (introduced : scope.introduce .node binder = .ok next) : next = scope := by
  cases binder with
  | none => contradiction
  | some identifier =>
      have known := described identifier.name
      rw [show bindings.lookup identifier.name = some element from bound] at known
      rcases introduce_some_cases introduced with ⟨fresh, _⟩ | ⟨_, _, same⟩
      · rw [fresh] at known
        contradiction
      · exact same

variable {graph : Snapshot} {maxDepth : Nat}

theorem Describes.starts {pattern : NodePattern} (described : scope.Describes bindings)
    (introduced : scope.introduce .node pattern.binder = .ok next) {result : Partial}
    (found : result ∈ (Match.starts graph pattern bindings).value) :
    next.Describes result.bindings := by
  cases bound : pattern.binder.bind bindings.element? with
  | none =>
      rw [Match.value_starts_free bound, List.mem_map] at found
      obtain ⟨node, _, rfl⟩ := found
      exact described.bind (.node node) introduced
  | some element =>
      have same := described.eq_of_bound bound introduced
      subst same
      cases element with
      | edge edge => simp [Match.value_starts_edge bound] at found
      | node node =>
          rw [Match.value_starts_node bound] at found
          split at found
          · rw [List.mem_singleton] at found
            subst found
            exact described
          · contradiction

theorem describes_hops {hops : List Hop} {begun : List Partial}
    (described : ∀ current ∈ begun, scope.Describes current.bindings)
    (accepted : hops.foldlM Scope.hop scope = .ok next) :
    ∀ result ∈ hops.foldl (fun found hop =>
        found.flatMap fun current => (Match.hop graph maxDepth hop current).value) begun,
      next.Describes result.bindings := by
  induction hops generalizing scope begun with
  | nil =>
      cases accepted
      exact described
  | cons hop rest ih =>
      obtain ⟨middle, taken, others⟩ := foldlM_cons_cases accepted
      refine ih ?_ others
      intro current found
      obtain ⟨earlier, member, extended⟩ := List.mem_flatMap.mp found
      obtain ⟨edge, node, rfl⟩ := Match.exists_extend_of_mem_hop extended
      exact (described earlier member).extend taken edge node

theorem Describes.pattern {pattern : Pattern} (described : scope.Describes bindings)
    (accepted : scope.pattern pattern = .ok next) {result : Bindings}
    (found : result ∈ (Match.pattern graph maxDepth pattern bindings).value) :
    next.Describes result := by
  obtain ⟨middle, start, hops⟩ := pattern_cases accepted
  rw [Match.value_pattern, List.mem_map] at found
  obtain ⟨current, reached, rfl⟩ := found
  exact describes_hops (fun begun member => described.starts start member) hops current reached

theorem describes_patterns_from {patterns : List Pattern} {sets : List Bindings}
    (described : ∀ bindings ∈ sets, scope.Describes bindings)
    (accepted : patterns.foldlM Scope.pattern scope = .ok next) :
    ∀ result ∈ patterns.foldl (fun found pattern =>
        found.flatMap fun bindings => (Match.pattern graph maxDepth pattern bindings).value) sets,
      next.Describes result := by
  induction patterns generalizing scope sets with
  | nil =>
      cases accepted
      exact described
  | cons pattern rest ih =>
      obtain ⟨middle, taken, others⟩ := foldlM_cons_cases accepted
      refine ih ?_ others
      intro bindings found
      obtain ⟨earlier, member, extended⟩ := List.mem_flatMap.mp found
      exact (described earlier member).pattern taken extended

theorem describes_patterns {patterns : List Pattern} (accepted : ofPatterns patterns = .ok scope) :
    ∀ bindings ∈ (Match.patterns graph maxDepth patterns).value, scope.Describes bindings := by
  rw [Match.value_patterns]
  exact describes_patterns_from (by simpa using describes_nil) accepted

end Query.Scope

end DocumentGraph
