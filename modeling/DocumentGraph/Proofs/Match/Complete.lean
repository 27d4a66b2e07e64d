import DocumentGraph.Proofs.Evaluate.Run
import DocumentGraph.Proofs.Graph.Change
import DocumentGraph.Proofs.Match.PatternSearch
import Mathlib.Data.Finset.Card
import Mathlib.Data.Multiset.MapFold

namespace DocumentGraph

open Query (Pattern Scope)

/-! The search finds every match once.

The patterns of a checked query are stages of a search.  The binding sets at its end are those
of the choices that match, each as often as there are such choices.
-/

namespace Match

variable {graph : Graph} {maxDepth : Nat} {last : Scope} {pattern : Pattern}
  {patterns : List Pattern} {stored : Bindings}

/-- What the search knows of a binding set when some patterns are left; they end with a scope. -/
def PatternsLeft (graph : Graph) (last : Scope) (patterns : List Pattern) (stored : Bindings) :
    Prop :=
  ∃ scope, Known graph scope stored ∧ patterns.foldlM Scope.pattern scope = .ok last

theorem PatternsLeft.enumerates (maxDepth : Nat) (indexed : graph.Indexed)
    (left : PatternsLeft graph last (pattern :: patterns) stored) :
    Enumerates (Match.pattern graph.snapshot maxDepth pattern stored).value
      (PatternAllowed graph maxDepth pattern stored) (extended pattern stored) := by
  obtain ⟨scope, known, accepted⟩ := left
  obtain ⟨middle, taken, _⟩ := Scope.foldlM_cons_cases accepted
  exact pattern_enumerates indexed known taken

theorem PatternsLeft.extended (left : PatternsLeft graph last (pattern :: patterns) stored)
    {choice : PatternChoice} (allowed : PatternAllowed graph maxDepth pattern stored choice) :
    PatternsLeft graph last patterns (extended pattern stored choice) := by
  obtain ⟨scope, known, accepted⟩ := left
  obtain ⟨middle, taken, others⟩ := Scope.foldlM_cons_cases accepted
  exact ⟨middle, known_extended known taken allowed, others⟩

theorem allAllowed_fitsPattern_iff {choices : List PatternChoice} :
    AllAllowed (fun pattern _ choice => FitsPattern graph maxDepth pattern choice) Match.extended
        patterns stored choices ↔
      List.Forall₂ (FitsPattern graph maxDepth) patterns choices := by
  induction patterns generalizing stored choices with
  | nil => cases choices <;> simp [AllAllowed]
  | cons pattern patterns ih =>
      cases choices with
      | nil => simp [AllAllowed]
      | cons choice choices => rw [AllAllowed, ih, List.forall₂_cons]

/-- The choices that the search makes for the patterns match. -/
theorem allAllowed_patterns_iff {choices : List PatternChoice} :
    AllAllowed (PatternAllowed graph maxDepth) Match.extended patterns [] choices ↔
      Matches graph maxDepth patterns choices := by
  have split : AllAllowed (PatternAllowed graph maxDepth) Match.extended patterns [] choices ↔
      AllAllowed (fun pattern _ choice => FitsPattern graph maxDepth pattern choice) Match.extended
          patterns [] choices ∧ Admits [] (bound patterns choices) :=
    allAllowed_and_admits_iff fun _ _ _ => rfl
  rw [split, allAllowed_fitsPattern_iff, admits_empty_iff]
  constructor
  · intro both
    exact ⟨both.1, both.2⟩
  · intro matched
    exact ⟨matched.fits, matched.agree⟩

theorem patterns_enumerate (maxDepth : Nat) (indexed : graph.Indexed)
    (accepted : Scope.ofPatterns patterns = .ok last) :
    Enumerates (Match.patterns graph.snapshot maxDepth patterns).value
      (Matches graph maxDepth patterns) (bindings patterns) := by
  have left : PatternsLeft graph last patterns [] :=
    ⟨[], ⟨within_nil, Scope.describes_nil⟩, accepted⟩
  have searched := enumerates_stages
    (fun _ _ _ left => ⟨PatternsLeft.enumerates maxDepth indexed left, fun _ => left.extended⟩) left
  rw [value_patterns, foldl_flatMap, List.flatMap_singleton]
  refine searched.congr ?_ ?_
  · intro choices
    exact allAllowed_patterns_iff.symm
  · intro choices _
    exact (held_reached id (fun _ _ _ => rfl) patterns [] choices).symm

end Match

namespace Query

open Match (Bindings Matches PatternChoice)

/-- The binding sets that a checked query finds in a graph are those of all choices that match,
one for each. -/
theorem patterns_matches (changes : List Graph.Change) (maxDepth : Nat) (query : Query)
    (accepted : query.check = .ok ()) :
    ∃ chosen : Finset (List PatternChoice),
      (∀ choices, choices ∈ chosen ↔
        Matches (Graph.ofChanges changes) maxDepth query.patterns choices) ∧
      ((Match.patterns (Graph.ofChanges changes).snapshot maxDepth query.patterns).value :
        Multiset Bindings) = chosen.val.map (Match.bindings query.patterns) := by
  obtain ⟨scope, introduced, _⟩ := check_eq_ok_iff.mp accepted
  obtain ⟨choices, nodup, member, found⟩ :=
    Match.patterns_enumerate maxDepth (Graph.indexed_ofChanges changes) introduced
  exact ⟨⟨choices, nodup⟩, member, by rw [found]; rfl⟩

def selfLink : List Graph.Change :=
  [.node { id := "a" }, .edge { id := "a-a", type := "LINKS_TO", source := "a", target := "a" }]

/-- `MATCH (n)--(n) RETURN n` -/
def selfNeighbours : Query :=
  let n : Identifier := { name := "n", position := {} }
  let hop : Hop := { relationship := { direction := .either }, node := { binder := n } }
  { patterns := [{ start := { binder := n }, hops := [hop] }]
    condition := none
    projection := { distinct := false, items := [{ expression := .element n }] } }

/-- The link is crossed once in each direction. -/
theorem patterns_matches_selfLink : selfNeighbours.check = .ok () ∧
    ∃ chosen : Finset (List PatternChoice),
      (∀ choices, choices ∈ chosen ↔
        Matches (Graph.ofChanges selfLink) 3 selfNeighbours.patterns choices) ∧
      chosen.card = 2 := by
  obtain ⟨chosen, member, found⟩ := patterns_matches selfLink 3 selfNeighbours rfl
  refine ⟨rfl, chosen, member, ?_⟩
  have counted := congrArg Multiset.card found
  rw [Multiset.card_map] at counted
  exact counted.symm.trans rfl

end Query

end DocumentGraph
