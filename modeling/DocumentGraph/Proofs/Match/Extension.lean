import DocumentGraph.Match.Pattern
import DocumentGraph.Proofs.Evaluate.Noted

namespace DocumentGraph.Match

open Query (Hop HopRange NodePattern Pattern)

/-! What matching finds, apart from its warnings.

Each stage of matching is a search through a list: of the nodes, of the steps or trails from a
node, of the binding sets found so far.
-/

variable {graph : Snapshot} {maxDepth : Nat} {bindings : Bindings} {current : Partial}

/-- The binding set extended by an edge and the node behind it, under the names of a hop. -/
def Partial.extend (current : Partial) (hop : Hop) (edge : Edge) (node : Node) : Partial where
  bindings := (current.bindings.bind hop.relationship.binder (.edge edge)).bind
    hop.node.binder (.node node)
  anchor := node

/-- Whether a node may stand at the end of a hop. -/
def Partial.admitsNode (current : Partial) (pattern : NodePattern) (node : Node) : Bool :=
  (satisfies node pattern).value && current.bindings.allows pattern.binder (.node node)

theorem value_ite_singleton {α : Type} (keep : Bool) (result : α) :
    (if keep then pure [result] else pure [] : Noted (List α)).value =
      (if keep then some result else none).toList := by
  cases keep <;> rfl

theorem value_oneStep (hop : Hop) :
    (oneStep graph hop current).value =
      (steps graph hop.relationship current.anchor).filterMap fun step =>
        if current.admitsNode hop.node step.node &&
            current.bindings.allows hop.relationship.binder (.edge step.edge) then
          some (current.extend hop step.edge step.node)
        else none := by
  rw [oneStep, Noted.value_collect, List.filterMap_eq_flatMap_toList]
  apply List.flatMap_congr
  intro step _
  exact value_ite_singleton _ _

theorem value_manySteps (hop : Hop) (range : HopRange) :
    (manySteps graph maxDepth hop range current).value =
      (trails graph hop.relationship ((range.min.map UInt32.toNat).getD 0)
        ((range.max.map UInt32.toNat).getD maxDepth) current.anchor).filterMap fun trail =>
          trail.edges.head?.bind fun last =>
            if current.admitsNode hop.node trail.node then
              some (current.extend hop last trail.node)
            else none := by
  rw [manySteps, Noted.value_collect, List.filterMap_eq_flatMap_toList]
  apply List.flatMap_congr
  intro trail _
  cases crossed : trail.edges with
  | nil => simp
  | cons last earlier =>
      rw [List.head?_cons, Option.bind_some]
      exact value_ite_singleton _ _

theorem value_starts_node {pattern : NodePattern} {node : Node}
    (bound : pattern.binder.bind bindings.element? = some (.node node)) :
    (starts graph pattern bindings).value =
      if (satisfies node pattern).value then [{ bindings, anchor := node }] else [] := by
  simp only [starts, bound, Noted.value_bind]
  split <;> rfl

theorem value_starts_edge {pattern : NodePattern} {edge : Edge}
    (bound : pattern.binder.bind bindings.element? = some (.edge edge)) :
    (starts graph pattern bindings).value = [] := by
  simp only [starts, bound]
  rfl

theorem value_starts_free {pattern : NodePattern}
    (free : pattern.binder.bind bindings.element? = none) :
    (starts graph pattern bindings).value =
      (graph.nodes.filter fun node => (satisfies node pattern).value).map fun node =>
        { bindings := bindings.bind pattern.binder (.node node), anchor := node } := by
  rw [starts, free]
  simp only [Noted.value_collect]
  induction graph.nodes with
  | nil => rfl
  | cons node rest ih =>
      rw [List.flatMap_cons, ih]
      cases fits : (satisfies node pattern).value <;> simp [fits]

theorem value_pattern (pattern : Pattern) :
    (Match.pattern graph maxDepth pattern bindings).value =
      (pattern.hops.foldl (fun found hop =>
          found.flatMap fun current => (Match.hop graph maxDepth hop current).value)
        (starts graph pattern.start bindings).value).map Partial.bindings := by
  simp [Match.pattern]

theorem value_patterns (patterns : List Pattern) :
    (Match.patterns graph maxDepth patterns).value =
      patterns.foldl (fun found pattern =>
          found.flatMap fun bindings => (Match.pattern graph maxDepth pattern bindings).value)
        [[]] := by
  simp [Match.patterns]

theorem exists_extend_of_mem_hop {hop : Hop} {result : Partial}
    (found : result ∈ (Match.hop graph maxDepth hop current).value) :
    ∃ edge node, result = current.extend hop edge node := by
  unfold Match.hop at found
  split at found
  · rw [value_oneStep, List.mem_filterMap] at found
    obtain ⟨step, _, extended⟩ := found
    split at extended
    · exact ⟨step.edge, step.node, (Option.some.inj extended).symm⟩
    · contradiction
  · rw [value_manySteps, List.mem_filterMap] at found
    obtain ⟨trail, _, extended⟩ := found
    rw [Option.bind_eq_some_iff] at extended
    obtain ⟨last, _, extended⟩ := extended
    split at extended
    · exact ⟨last, trail.node, (Option.some.inj extended).symm⟩
    · contradiction

theorem harmless_property (node : Node) (name : String) : (node.property name).Harmless := by
  unfold Node.property
  split
  · exact Noted.harmless_pure _
  · simp [Noted.Harmless, Node.unknownProperty]

theorem harmless_meetsAll (node : Node) (pairs : List (String × Query.Literal)) :
    (meetsAll node pairs).Harmless := by
  induction pairs with
  | nil => exact Noted.harmless_pure _
  | cons pair rest ih =>
      refine (harmless_property node pair.1).bind ?_
      split
      · exact ih
      · exact Noted.harmless_pure _

theorem harmless_satisfies (node : Node) (pattern : NodePattern) :
    (satisfies node pattern).Harmless := by
  unfold satisfies
  split
  · exact harmless_meetsAll node _
  · exact Noted.harmless_pure _

theorem harmless_starts (pattern : NodePattern) : (starts graph pattern bindings).Harmless := by
  unfold starts
  split
  · refine (harmless_satisfies _ pattern).bind ?_
    split <;> exact Noted.harmless_pure _
  · exact Noted.harmless_pure _
  · refine Noted.harmless_collect fun node _ => (harmless_satisfies node pattern).bind ?_
    split <;> exact Noted.harmless_pure _

theorem harmless_hop (hop : Hop) : (Match.hop graph maxDepth hop current).Harmless := by
  unfold Match.hop
  split
  · refine Noted.harmless_collect fun step _ => (harmless_satisfies step.node hop.node).bind ?_
    split <;> exact Noted.harmless_pure _
  · refine Noted.harmless_collect fun trail _ => (harmless_satisfies trail.node hop.node).bind ?_
    split
    · exact Noted.harmless_pure _
    · split <;> exact Noted.harmless_pure _

theorem harmless_pattern (pattern : Pattern) :
    (Match.pattern graph maxDepth pattern bindings).Harmless := by
  refine (harmless_starts pattern.start).bind (Noted.Harmless.bind ?_ (Noted.harmless_pure _))
  exact Noted.harmless_foldlM fun _ hop => Noted.harmless_collect fun _ _ => harmless_hop hop

theorem harmless_patterns (patterns : List Pattern) :
    (Match.patterns graph maxDepth patterns).Harmless :=
  Noted.harmless_foldlM fun _ pattern => Noted.harmless_collect fun _ _ =>
    harmless_pattern pattern

end DocumentGraph.Match
