import DocumentGraph.Proofs.Match.Agreement
import DocumentGraph.Proofs.Match.Trail

namespace DocumentGraph.Match

open Query (Hop HopRange Literal NodePattern Scope)

/-! Searching for one hop.

A hop extends a binding set once for every choice that fits the hop and agrees with the
binding set.
-/

variable {graph : Graph} {maxDepth : Nat} {current : Partial} {scope next : Scope}

theorem value_meetsAll (node : Node) (pairs : List (String × Literal)) :
    (meetsAll node pairs).value =
      pairs.all fun pair => (node.property pair.1).value.meets pair.2 := by
  induction pairs with
  | nil => rfl
  | cons pair rest ih =>
      rw [meetsAll, Noted.value_bind, List.all_cons, ← ih]
      cases (node.property pair.1).value.meets pair.2 <;> rfl

theorem label_iff {node : Node} {pattern : NodePattern} :
    (pattern.label.all fun label => node.labels.any (equalIgnoringCase · label.name)) = true ↔
      ∀ label ∈ pattern.label, ∃ own ∈ node.labels, equalIgnoringCase own label.name := by
  cases pattern.label <;> simp

theorem satisfies_iff {node : Node} {pattern : NodePattern} :
    (satisfies node pattern).value = true ↔ Satisfies node pattern := by
  unfold satisfies
  by_cases labelled : pattern.label.all fun label =>
      node.labels.any (equalIgnoringCase · label.name)
  · rw [if_pos labelled, value_meetsAll, List.all_eq_true]
    rw [label_iff] at labelled
    exact ⟨fun properties => ⟨labelled, properties⟩, Satisfies.properties⟩
  · rw [if_neg labelled]
    rw [label_iff] at labelled
    exact ⟨fun impossible => by contradiction, fun satisfied => absurd satisfied.label labelled⟩

/-- The binding set that a choice extends another to. -/
def Partial.advance (hop : Hop) (current : Partial) (choice : HopChoice) : Partial where
  bindings := store current.bindings (choice.bound hop)
  anchor := choice.node

theorem Partial.advance_eq_extend {hop : Hop} {choice : HopChoice} {last : Crossing}
    (crossed : choice.crossings.getLast? = some last) :
    current.advance hop choice = current.extend hop last.edge choice.node := by
  rw [advance, store_bound crossed, extend]

/-- What the search knows of a binding set before a pattern. -/
structure Known (graph : Graph) (scope : Scope) (stored : Bindings) : Prop where
  within : Within graph stored
  described : scope.Describes stored

/-- What the search knows of a binding set before a hop. -/
structure Ready (graph : Graph) (scope : Scope) (current : Partial) : Prop
    extends Known graph scope current.bindings where
  anchored : current.anchor ∈ graph.nodes.toList

variable {hop : Hop} {choice : HopChoice}

theorem Ready.advance (ready : Ready graph scope current) (accepted : scope.hop hop = .ok next)
    (member : choice.node ∈ graph.nodes.toList) (crossed : choice.crossings ≠ []) :
    Ready graph next (current.advance hop choice) := by
  refine { within := ?_, described := ?_, anchored := member }
  · exact ready.within.store fun name node => mem_nodes_of_mem_bound member
  · rw [Partial.advance_eq_extend (List.getLast?_eq_some_getLast crossed)]
    exact ready.described.extend accepted _ _

theorem allows_relationship (described : scope.Describes current.bindings)
    (accepted : scope.hop hop = .ok next) (edge : Edge) :
    current.bindings.allows hop.relationship.binder (.edge edge) = true := by
  rw [Bindings.allows, relationship_free described accepted]

/-- The search keeps a choice that leads along the hop when its node satisfies the pattern and
agrees with what is bound. -/
theorem kept_iff (indexed : graph.Indexed) (ready : Ready graph scope current)
    (accepted : scope.hop hop = .ok next) :
    FitsHop graph maxDepth current.anchor hop choice ∧
        Admits current.bindings (choice.bound hop) ↔
      (Leads graph hop.relationship current.anchor choice ∧
        InRange maxDepth current.anchor choice.crossings hop.relationship.range) ∧
      current.admitsNode hop.node choice.node = true := by
  have node (member : choice.node ∈ graph.nodes.toList) :
      current.admitsNode hop.node choice.node = true ↔
        Satisfies choice.node hop.node ∧ Admits current.bindings (choice.bound hop) := by
    rw [Partial.admitsNode, Bool.and_eq_true, satisfies_iff,
      allows_node_iff indexed ready.within member, admits_bound_iff ready.described accepted]
  constructor
  · intro fitting
    obtain ⟨⟨leads, inRange, satisfied⟩, admitted⟩ := fitting
    exact ⟨⟨leads, inRange⟩, (node leads.node).mpr ⟨satisfied, admitted⟩⟩
  · intro kept'
    obtain ⟨⟨leads, inRange⟩, kept⟩ := kept'
    obtain ⟨satisfied, admitted⟩ := (node leads.node).mp kept
    exact ⟨⟨leads, inRange, satisfied⟩, admitted⟩

theorem oneStep_enumerates (indexed : graph.Indexed) (ready : Ready graph scope current)
    (accepted : scope.hop hop = .ok next) :
    Enumerates (oneStep graph.snapshot hop current).value
      (fun choice => (Leads graph hop.relationship current.anchor choice ∧
          choice.crossings.length = 1) ∧
        current.admitsNode hop.node choice.node = true)
      (current.advance hop) := by
  rw [value_oneStep]
  simp only [allows_relationship ready.described accepted, Bool.and_true]
  have found := steps_enumerate indexed hop.relationship current.anchor
  refine (found.filterMap fun _ _ => rfl).reindex (fun taken => ⟨[taken.1], taken.2⟩) ?_ ?_ ?_
  · intro left right _ _ equal
    obtain ⟨_, _⟩ := left
    obtain ⟨_, _⟩ := right
    obtain ⟨crossings, rfl⟩ := HopChoice.mk.inj equal
    obtain rfl := List.singleton_inj.mp crossings
    rfl
  · intro choice
    constructor
    · intro leading
      obtain ⟨⟨leads, single⟩, kept⟩ := leading
      obtain ⟨crossings, node⟩ := choice
      obtain ⟨crossing, rfl⟩ := List.length_eq_one_iff.mp single
      exact ⟨(crossing, node), ⟨(leads_single_iff indexed ready.anchored).mp leads, kept⟩, rfl⟩
    · intro taken
      obtain ⟨⟨crossing, node⟩, ⟨takes, kept⟩, rfl⟩ := taken
      exact ⟨⟨(leads_single_iff indexed ready.anchored).mpr takes, rfl⟩, kept⟩
  · intro taken _
    obtain ⟨crossing, node⟩ := taken
    exact Partial.advance_eq_extend rfl

theorem manySteps_enumerates (indexed : graph.Indexed) (ready : Ready graph scope current)
    (range : HopRange) :
    Enumerates (manySteps graph.snapshot maxDepth hop range current).value
      (fun choice => (Leads graph hop.relationship current.anchor choice ∧
          InRange maxDepth current.anchor choice.crossings (some range)) ∧
        current.admitsNode hop.node choice.node = true)
      (current.advance hop) := by
  rw [value_manySteps]
  refine (trails_enumerate indexed ready.anchored _ _).filterMap ?_
  intro choice leading
  obtain ⟨_, least, _⟩ := leading
  have crossed : choice.crossings ≠ [] := by
    intro none
    simp [none] at least
  have last : (choice.trail current.anchor).edges.head? =
      some (choice.crossings.getLast crossed).edge := by
    simp [HopChoice.trail, List.getLast?_eq_some_getLast crossed]
  rw [last, Option.bind_some, Partial.advance_eq_extend (List.getLast?_eq_some_getLast crossed)]
  rfl

theorem hop_enumerates (indexed : graph.Indexed) (ready : Ready graph scope current)
    (accepted : scope.hop hop = .ok next) :
    Enumerates (Match.hop graph.snapshot maxDepth hop current).value
      (fun choice => FitsHop graph maxDepth current.anchor hop choice ∧
        Admits current.bindings (choice.bound hop))
      (current.advance hop) := by
  have kept : Enumerates (Match.hop graph.snapshot maxDepth hop current).value
      (fun choice => (Leads graph hop.relationship current.anchor choice ∧
          InRange maxDepth current.anchor choice.crossings hop.relationship.range) ∧
        current.admitsNode hop.node choice.node = true)
      (current.advance hop) := by
    unfold Match.hop
    cases hop.relationship.range with
    | none => exact oneStep_enumerates indexed ready accepted
    | some range => exact manySteps_enumerates indexed ready range
  exact kept.congr (fun choice => kept_iff indexed ready accepted) fun _ _ => rfl

theorem FitsHop.crossings_ne_nil {source : Node}
    (fits : FitsHop graph maxDepth source hop choice) : choice.crossings ≠ [] := by
  intro none
  have inRange := fits.inRange
  rw [none] at inRange
  cases range : hop.relationship.range with
  | none => simp [range, InRange] at inRange
  | some range => simp [range, InRange] at inRange

end DocumentGraph.Match
