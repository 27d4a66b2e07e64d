import DocumentGraph.Proofs.Evaluate.Projection
import DocumentGraph.Proofs.Query.Site

namespace DocumentGraph

open Match (Bindings Element Partial)
open Query (Hop Identifier NodePattern Pattern Site sites)

/-! The names that a match binds.

A match binds a variable for every site of its patterns, whether or not the check would accept
the patterns: no later site takes a variable away.
-/

namespace Match

variable {stored later last : Bindings} {graph : Snapshot} {maxDepth : Nat}

def Bindings.Binds (bindings : Bindings) (site : Site) : Prop :=
  ∀ identifier ∈ site.binder, (bindings.element? identifier).isSome

/-- What is bound before is bound later. -/
def Bindings.Grows (stored later : Bindings) : Prop :=
  ∀ name, (stored.lookup name).isSome → (later.lookup name).isSome

theorem Bindings.Grows.trans (first : stored.Grows later) (second : later.Grows last) :
    stored.Grows last :=
  fun name bound => second name (first name bound)

theorem Bindings.Grows.binds (grows : stored.Grows later) {site : Site} (binds : stored.Binds site) :
    later.Binds site :=
  fun identifier written => grows identifier.name (binds identifier written)

theorem grows_bind (stored : Bindings) (binder : Option Identifier) (element : Element) :
    stored.Grows (stored.bind binder element) := by
  intro name bound
  cases binder with
  | none => exact bound
  | some identifier =>
      by_cases same : name = identifier.name
      · subst same
        rw [Bindings.bind, Ordered.lookup_put_self]
        rfl
      · rwa [Bindings.bind, Ordered.lookup_put_of_ne same]

theorem element?_bind (stored : Bindings) (identifier : Identifier) (element : Element) :
    (stored.bind (some identifier) element).element? identifier = some element :=
  Ordered.lookup_put_self identifier.name element stored

theorem binds_bind (stored : Bindings) {site : Site} (element : Element) :
    (stored.bind site.binder element).Binds site := by
  intro identifier written
  rw [written, element?_bind]
  rfl

/-- The binding set grows by the sites of a part of a pattern. -/
structure Covers (sites : List Site) (stored later : Bindings) : Prop where
  grows : stored.Grows later
  binds : ∀ site ∈ sites, later.Binds site

theorem Covers.append {first second : List Site} (before : Covers first stored later)
    (behind : Covers second later last) : Covers (first ++ second) stored last where
  grows := before.grows.trans behind.grows
  binds := fun site member => by
    rcases List.mem_append.mp member with early | late
    · exact behind.grows.binds (before.binds site early)
    · exact behind.binds site late

theorem covers_nil (stored : Bindings) : Covers [] stored stored :=
  ⟨fun _ bound => bound, fun _ member => absurd member List.not_mem_nil⟩

theorem covers_bind (stored : Bindings) (site : Site) (element : Element) :
    Covers [site] stored (stored.bind site.binder element) where
  grows := grows_bind stored site.binder element
  binds := fun other member => by
    obtain rfl := List.mem_singleton.mp member
    exact binds_bind stored element

theorem covers_hop {hop : Hop} {current result : Partial}
    (found : result ∈ (Match.hop graph maxDepth hop current).value) :
    Covers hop.sites current.bindings result.bindings := by
  obtain ⟨edge, node, rfl⟩ := exists_extend_of_mem_hop found
  have crossed := covers_bind current.bindings (.relationship hop.relationship) (.edge edge)
  exact crossed.append (covers_bind _ (.node hop.node) (.node node))

theorem covers_starts {pattern : NodePattern} {result : Partial}
    (found : result ∈ (starts graph pattern stored).value) :
    Covers [.node pattern] stored result.bindings := by
  cases bound : pattern.binder.bind stored.element? with
  | none =>
      rw [value_starts_free bound, List.mem_map] at found
      obtain ⟨node, _, rfl⟩ := found
      exact covers_bind stored (.node pattern) (.node node)
  | some element =>
      have known : stored.Binds (.node pattern) := by
        intro identifier written
        have binder : pattern.binder = some identifier := written
        rw [binder, Option.bind_some] at bound
        rw [bound]
        rfl
      have kept : Covers [.node pattern] stored stored :=
        ⟨fun _ bound => bound, List.forall_mem_singleton.mpr known⟩
      cases element with
      | edge edge => simp [value_starts_edge bound] at found
      | node node =>
          rw [value_starts_node bound] at found
          split at found
          · rw [List.mem_singleton] at found
            exact found ▸ kept
          · contradiction

/-- Stages that each cover their sites cover all of them. -/
theorem covers_foldl {ι σ : Type} {stage : ι → σ → List σ} {sitesOf : ι → List Site}
    {held : σ → Bindings}
    (each : ∀ item state, ∀ result ∈ stage item state,
      Covers (sitesOf item) (held state) (held result))
    {items : List ι} {states : List σ} {result : σ}
    (found : result ∈ items.foldl (fun found item => found.flatMap (stage item)) states) :
    ∃ state ∈ states, Covers (items.flatMap sitesOf) (held state) (held result) := by
  induction items generalizing states with
  | nil => exact ⟨result, found, covers_nil _⟩
  | cons item items ih =>
      obtain ⟨middle, reached, others⟩ := ih found
      obtain ⟨state, member, here⟩ := List.mem_flatMap.mp reached
      exact ⟨state, member, (each item state middle here).append others⟩

theorem covers_pattern {pattern : Pattern}
    (found : later ∈ (Match.pattern graph maxDepth pattern stored).value) :
    Covers pattern.sites stored later := by
  rw [value_pattern, List.mem_map] at found
  obtain ⟨result, reached, rfl⟩ := found
  obtain ⟨begun, member, hops⟩ := covers_foldl (fun _ _ _ => covers_hop) reached
  exact (covers_starts member).append hops

theorem covers_patterns {patterns : List Pattern}
    (found : later ∈ (Match.patterns graph maxDepth patterns).value) :
    Covers (sites patterns) [] later := by
  have each : ∀ (pattern : Pattern) (stored : Bindings),
      ∀ later ∈ (Match.pattern graph maxDepth pattern stored).value,
        Covers pattern.sites (id stored) (id later) := fun _ _ _ => covers_pattern
  rw [value_patterns] at found
  obtain ⟨begun, member, covered⟩ := covers_foldl each found
  obtain rfl := List.mem_singleton.mp member
  exact covered

end Match

namespace Query

/-- The patterns of the query introduce every name that the query uses. -/
def UsesIntroduced (query : Query) : Prop :=
  ∀ identifier ∈ query.uses,
    ∃ role, (identifier.name, role) ∈ (sites query.patterns).filterMap Site.introduced?

theorem UsesIntroduced.bindsUses {query : Query} (introduced : query.UsesIntroduced)
    (graph : Snapshot) (maxDepth : Nat) : query.BindsUses graph maxDepth := by
  intro bindings found identifier used
  obtain ⟨role, inside⟩ := introduced identifier used
  obtain ⟨site, member, named⟩ := List.mem_filterMap.mp inside
  obtain ⟨binder, written, same⟩ := Option.map_eq_some_iff.mp named
  have bound := (Match.covers_patterns found).binds site member binder written
  rw [Prod.mk.injEq] at same
  rwa [Bindings.element?, same.1] at bound

end Query

end DocumentGraph
