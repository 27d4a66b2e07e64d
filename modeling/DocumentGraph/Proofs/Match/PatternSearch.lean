import DocumentGraph.Proofs.Match.HopSearch
import DocumentGraph.Proofs.Ordered

namespace DocumentGraph.Match

open Query (Hop NodePattern Pattern Scope)

/-! Searching for patterns.

The hops of a pattern are stages of a search, and so are the patterns of a query.  The choices
of all stages fit one by one, and each agrees with the binding set that the choices before it
lead to; together these say that the choices match.
-/

variable {graph : Graph} {maxDepth : Nat} {stored : Bindings} {scope next : Scope}

/-- The binding set with a node at the start of a pattern. -/
def begun (pattern : NodePattern) (stored : Bindings) (node : Node) : Partial where
  bindings := store stored (named pattern.binder (.node node))
  anchor := node

theorem begun_of_bound {pattern : NodePattern} {node : Node}
    (bound : pattern.binder.bind stored.element? = some (.node node)) :
    begun pattern stored node = { bindings := stored, anchor := node } := by
  obtain ⟨identifier, written, found⟩ := Option.bind_eq_some_iff.mp bound
  have unchanged : stored.bind (some identifier) (.node node) = stored :=
    Ordered.put_of_lookup found
  rw [begun, store_named, written, unchanged]

/-- What the search asks of a node at the start of a pattern. -/
def StartAllowed (graph : Graph) (pattern : NodePattern) (stored : Bindings) (node : Node) : Prop :=
  (node ∈ graph.nodes.toList ∧ Satisfies node pattern) ∧
    Admits stored (named pattern.binder (.node node))

theorem starts_enumerates_of_free (indexed : graph.Indexed) {pattern : NodePattern}
    (free : pattern.binder.bind stored.element? = none) :
    Enumerates (starts graph.snapshot pattern stored).value (StartAllowed graph pattern stored)
      (begun pattern stored) := by
  have distinct : graph.nodes.toList.Nodup := List.Nodup.of_map Node.id indexed.nodes.nodup
  rw [value_starts_free free]
  refine ((Enumerates.ofNodup (distinct.filter _)).map _).congr ?_ ?_
  · intro node
    simp [StartAllowed, ← satisfies_iff, admits_named_iff, free]
  · intro node _
    rw [begun, store_named]

theorem starts_enumerates_of_bound {pattern : NodePattern} {known : Node}
    (bound : pattern.binder.bind stored.element? = some (.node known))
    (member : known ∈ graph.nodes.toList) :
    Enumerates (starts graph.snapshot pattern stored).value (StartAllowed graph pattern stored)
      (begun pattern stored) := by
  have same {node : Node} :
      Admits stored (named pattern.binder (.node node)) ↔ known = node := by
    simp [admits_named_iff, bound]
  rw [value_starts_node bound]
  by_cases fits : (satisfies known pattern).value
  · rw [if_pos fits]
    refine (Enumerates.single _).reindex (fun _ => known) ?_ ?_ ?_
    · exact fun _ _ _ _ _ => rfl
    · intro node
      constructor
      · intro allowed
        exact ⟨(), trivial, same.mp allowed.2⟩
      · intro found
        obtain ⟨_, _, rfl⟩ := found
        exact ⟨⟨member, satisfies_iff.mp fits⟩, same.mpr rfl⟩
    · exact fun _ _ => begun_of_bound bound
  · rw [if_neg fits]
    refine Enumerates.nothing ?_
    intro node allowed
    obtain ⟨⟨_, satisfied⟩, agreed⟩ := allowed
    rw [same] at agreed
    exact fits (satisfies_iff.mpr (agreed ▸ satisfied))

theorem starts_enumerates (indexed : graph.Indexed) (within : Within graph stored)
    (pattern : NodePattern) :
    Enumerates (starts graph.snapshot pattern stored).value (StartAllowed graph pattern stored)
      (begun pattern stored) := by
  cases bound : pattern.binder.bind stored.element? with
  | none => exact starts_enumerates_of_free indexed bound
  | some element =>
      cases element with
      | edge edge =>
          rw [value_starts_edge bound]
          refine Enumerates.nothing ?_
          intro node allowed
          have impossible := admits_named_iff.mp allowed.2 _ bound
          contradiction
      | node known =>
          obtain ⟨identifier, _, found⟩ := Option.bind_eq_some_iff.mp bound
          exact starts_enumerates_of_bound bound (within identifier.name known found)

theorem ready_begun {pattern : NodePattern} {node : Node} (known : Known graph scope stored)
    (introduced : scope.introduce .node pattern.binder = .ok next)
    (member : node ∈ graph.nodes.toList) : Ready graph next (begun pattern stored node) := by
  refine { within := known.within.store ?_, described := ?_, anchored := member }
  · intro name other paired
    obtain ⟨_, _, equal⟩ := List.mem_map.mp paired
    have same : node = other := Element.node.inj (Prod.mk.inj equal).2
    exact same ▸ member
  · rw [begun, store_named]
    exact known.described.bind (.node node) introduced

section Binding

variable {ι σ γ : Type} {next : ι → σ → γ → σ} {held : σ → Bindings}
  {pairs : ι → γ → List (String × Element)} {fits : ι → σ → γ → Prop}

/-- Stages that store what they choose store all of it. -/
theorem held_reached (held : σ → Bindings) (stores : ∀ item state choice,
      held (next item state choice) = store (held state) (pairs item choice))
    (items : List ι) (state : σ) (choices : List γ) :
    held (reached next items state choices) =
      store (held state) ((items.zip choices).flatMap fun (item, choice) => pairs item choice) := by
  induction items generalizing state choices with
  | nil => rfl
  | cons item items ih =>
      cases choices with
      | nil => rfl
      | cons choice choices =>
          rw [reached, ih, stores, List.zip_cons_cons, List.flatMap_cons, store_append]

/-- Stages that each ask for agreement with what is stored ask for agreement of all choices. -/
theorem allAllowed_and_admits_iff (stores : ∀ item state choice,
      held (next item state choice) = store (held state) (pairs item choice))
    {items : List ι} {state : σ} {choices : List γ} :
    AllAllowed (fun item state choice =>
        fits item state choice ∧ Admits (held state) (pairs item choice)) next items state choices ↔
      AllAllowed fits next items state choices ∧
        Admits (held state)
          ((items.zip choices).flatMap fun (item, choice) => pairs item choice) := by
  induction items generalizing state choices with
  | nil =>
      cases choices with
      | nil => simp [AllAllowed, admits_nil]
      | cons choice choices => simp [AllAllowed]
  | cons item items ih =>
      cases choices with
      | nil => simp [AllAllowed]
      | cons choice choices =>
          rw [AllAllowed, AllAllowed, ih, stores, List.zip_cons_cons, List.flatMap_cons,
            admits_append]
          exact and_and_and_comm

end Binding

/-- What the search asks of a choice for a hop. -/
def HopAllowed (graph : Graph) (maxDepth : Nat) (hop : Hop) (current : Partial)
    (choice : HopChoice) : Prop :=
  FitsHop graph maxDepth current.anchor hop choice ∧ Admits current.bindings (choice.bound hop)

theorem allAllowed_fitsHop_iff {hops : List Hop} {current : Partial} {choices : List HopChoice} :
    AllAllowed (fun hop current choice => FitsHop graph maxDepth current.anchor hop choice)
        Partial.advance hops current choices ↔
      FitsHops graph maxDepth current.anchor hops choices := by
  induction hops generalizing current choices with
  | nil => cases choices <;> rfl
  | cons hop hops ih =>
      cases choices with
      | nil => rfl
      | cons choice choices => rw [AllAllowed, ih, FitsHops, Partial.advance]

theorem allAllowed_hops_iff {hops : List Hop} {current : Partial} {choices : List HopChoice} :
    AllAllowed (HopAllowed graph maxDepth) Partial.advance hops current choices ↔
      FitsHops graph maxDepth current.anchor hops choices ∧
        Admits current.bindings (boundByHops hops choices) := by
  rw [← allAllowed_fitsHop_iff]
  exact allAllowed_and_admits_iff fun _ _ _ => rfl

/-- What the search knows of a binding set when some hops are left; they end with a scope. -/
def HopsLeft (graph : Graph) (last : Scope) (hops : List Hop) (current : Partial) : Prop :=
  ∃ scope, Ready graph scope current ∧ hops.foldlM Scope.hop scope = .ok last

variable {last : Scope}

theorem HopsLeft.advance {hop : Hop} {hops : List Hop} {current : Partial}
    (left : HopsLeft graph last (hop :: hops) current) {choice : HopChoice}
    (allowed : HopAllowed graph maxDepth hop current choice) :
    HopsLeft graph last hops (current.advance hop choice) := by
  obtain ⟨scope, ready, accepted⟩ := left
  obtain ⟨middle, taken, others⟩ := Scope.foldlM_cons_cases accepted
  obtain ⟨fits, _⟩ := allowed
  exact ⟨middle, ready.advance taken fits.leads.node fits.crossings_ne_nil, others⟩

theorem HopsLeft.enumerates (indexed : graph.Indexed) {hop : Hop} {hops : List Hop}
    {current : Partial} (left : HopsLeft graph last (hop :: hops) current) :
    Enumerates (Match.hop graph.snapshot maxDepth hop current).value
      (HopAllowed graph maxDepth hop current) (current.advance hop) := by
  obtain ⟨scope, ready, accepted⟩ := left
  obtain ⟨middle, taken, _⟩ := Scope.foldlM_cons_cases accepted
  exact hop_enumerates indexed ready taken

def searchHops (graph : Snapshot) (maxDepth : Nat) : List Hop → Partial → List Partial :=
  stages fun hop current => (Match.hop graph maxDepth hop current).value

theorem searchHops_enumerates (maxDepth : Nat) (indexed : graph.Indexed) {hops : List Hop}
    {current : Partial} (left : HopsLeft graph last hops current) :
    Enumerates (searchHops graph.snapshot maxDepth hops current)
      (AllAllowed (HopAllowed graph maxDepth) Partial.advance hops current)
      (reached Partial.advance hops current) :=
  enumerates_stages (fun _ _ _ left => ⟨left.enumerates indexed, fun _ => left.advance⟩) left

theorem ready_reached {hops : List Hop} {current : Partial} (left : HopsLeft graph last hops current)
    {choices : List HopChoice}
    (chosen : AllAllowed (HopAllowed graph maxDepth) Partial.advance hops current choices) :
    Ready graph last (reached Partial.advance hops current choices) := by
  obtain ⟨scope, ready, ended⟩ := invariant_reached (fun _ _ _ left _ => left.advance) left chosen
  obtain rfl : scope = last := Except.ok.inj ended
  exact ready

def PatternAllowed (graph : Graph) (maxDepth : Nat) (pattern : Pattern) (stored : Bindings)
    (choice : PatternChoice) : Prop :=
  FitsPattern graph maxDepth pattern choice ∧ Admits stored (choice.bound pattern)

def extended (pattern : Pattern) (stored : Bindings) (choice : PatternChoice) : Bindings :=
  store stored (choice.bound pattern)

theorem patternAllowed_iff {pattern : Pattern} {choice : PatternChoice} :
    PatternAllowed graph maxDepth pattern stored choice ↔
      StartAllowed graph pattern.start stored choice.start ∧
      AllAllowed (HopAllowed graph maxDepth) Partial.advance pattern.hops
        (begun pattern.start stored choice.start) choice.hops := by
  have split : Admits stored (choice.bound pattern) ↔
      Admits stored (named pattern.start.binder (.node choice.start)) ∧
        Admits (begun pattern.start stored choice.start).bindings
          (boundByHops pattern.hops choice.hops) := admits_append
  rw [PatternAllowed, split, allAllowed_hops_iff]
  constructor
  · intro fitting
    obtain ⟨⟨member, satisfied, hops⟩, first, rest⟩ := fitting
    exact ⟨⟨⟨member, satisfied⟩, first⟩, hops, rest⟩
  · intro searched
    obtain ⟨⟨⟨member, satisfied⟩, first⟩, hops, rest⟩ := searched
    exact ⟨⟨member, satisfied, hops⟩, first, rest⟩

theorem bindings_reached (pattern : Pattern) (stored : Bindings) (choice : PatternChoice) :
    (reached Partial.advance pattern.hops (begun pattern.start stored choice.start)
      choice.hops).bindings = extended pattern stored choice := by
  have hops : (reached Partial.advance pattern.hops (begun pattern.start stored choice.start)
      choice.hops).bindings = store (begun pattern.start stored choice.start).bindings
        (boundByHops pattern.hops choice.hops) := held_reached Partial.bindings (fun _ _ _ => rfl) _ _ _
  rw [hops]
  exact store_append.symm

theorem pattern_enumerates (indexed : graph.Indexed) (known : Known graph scope stored)
    {pattern : Pattern} (accepted : scope.pattern pattern = .ok next) :
    Enumerates (Match.pattern graph.snapshot maxDepth pattern stored).value
      (PatternAllowed graph maxDepth pattern stored) (extended pattern stored) := by
  obtain ⟨middle, introduced, others⟩ := Scope.pattern_cases accepted
  have begins := starts_enumerates indexed known.within pattern.start
  have continues : ∀ node, StartAllowed graph pattern.start stored node →
      Enumerates
        (searchHops graph.snapshot maxDepth pattern.hops (begun pattern.start stored node))
        (AllAllowed (HopAllowed graph maxDepth) Partial.advance pattern.hops
          (begun pattern.start stored node))
        (reached Partial.advance pattern.hops (begun pattern.start stored node)) := by
    intro node begun
    obtain ⟨⟨member, _⟩, _⟩ := begun
    have ready := ready_begun known introduced member
    exact searchHops_enumerates maxDepth indexed ⟨middle, ready, others⟩
  rw [value_pattern, foldl_flatMap]
  refine ((begins.flatMap continues).map Partial.bindings).reindex
    (fun pair => PatternChoice.mk pair.1 pair.2) ?_ ?_ ?_
  · intro left right _ _ equal
    obtain ⟨_, _⟩ := left
    obtain ⟨_, _⟩ := right
    obtain ⟨rfl, rfl⟩ := PatternChoice.mk.inj equal
    rfl
  · intro choice
    rw [patternAllowed_iff]
    constructor
    · intro searched
      obtain ⟨begins, hops⟩ := searched
      exact ⟨(choice.start, choice.hops), ⟨begins, hops⟩, rfl⟩
    · intro found
      obtain ⟨⟨node, choices⟩, ⟨begins, hops⟩, rfl⟩ := found
      exact ⟨begins, hops⟩
  · intro pair _
    obtain ⟨node, choices⟩ := pair
    exact (bindings_reached pattern stored ⟨node, choices⟩).symm

theorem known_extended (known : Known graph scope stored) {pattern : Pattern}
    (accepted : scope.pattern pattern = .ok next) {choice : PatternChoice}
    (allowed : PatternAllowed graph maxDepth pattern stored choice) :
    Known graph next (extended pattern stored choice) := by
  obtain ⟨middle, introduced, others⟩ := Scope.pattern_cases accepted
  obtain ⟨⟨⟨member, _⟩, _⟩, hops⟩ := patternAllowed_iff.mp allowed
  have ready := ready_begun known introduced member
  rw [← bindings_reached]
  exact (ready_reached ⟨middle, ready, others⟩ hops).toKnown

end DocumentGraph.Match
