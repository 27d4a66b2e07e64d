import DocumentGraph.Proofs.Match.Complete

namespace DocumentGraph.Match

open Query (Pattern Scope)

/-! Binding sets as maps.

The order in which a binding set was built does not matter for what its variables stand for:
two lists of agreeing pairs with the same members are the same map.
-/

/-- What the variables of a binding set stand for. -/
def Bindings.valuation (bindings : Bindings) : String → Option Element :=
  fun name => bindings.lookup name

/-- What the variables of a binding set stand for, some of them left out. -/
def Bindings.valuationExcept (names : List String) (bindings : Bindings) :
    String → Option Element :=
  fun name => if name ∈ names then none else bindings.valuation name

variable {name : String} {element : Element} {pairs others : List (String × Element)}

theorem Agree.of_subset (agree : Agree pairs) (within : others ⊆ pairs) : Agree others :=
  fun name left right inLeft inRight => agree name left right (within inLeft) (within inRight)

theorem valuation_store_iff (agree : Agree pairs) :
    (store [] pairs).valuation name = some element ↔ (name, element) ∈ pairs := by
  constructor
  · intro found
    rcases lookup_store_cases found with member | impossible
    · exact member
    · contradiction
  · exact lookup_store_of_mem agree

theorem valuation_store_eq (agree : Agree pairs) (same : ∀ pair, pair ∈ pairs ↔ pair ∈ others) :
    (store [] pairs).valuation = (store [] others).valuation := by
  have agreeOthers : Agree others := agree.of_subset fun pair member => (same pair).mpr member
  funext name
  apply Option.ext
  intro element
  rw [valuation_store_iff agree, valuation_store_iff agreeOthers, same]

/-- What depends on the variables of a binding set only is the same, each as often, on lists
with the same maps. -/
theorem map_perm_of_valuation {α : Type} {f : Bindings → α} {sets others : List Bindings}
    (factors : f.FactorsThrough Bindings.valuation)
    (same : (sets.map Bindings.valuation).Perm (others.map Bindings.valuation)) :
    (sets.map f).Perm (others.map f) := by
  cases sets with
  | nil =>
      have empty : others = [] := by simpa using same.symm.eq_nil
      rw [empty]
  | cons first rest =>
      have through : Function.extend Bindings.valuation f (fun _ => f first) ∘ Bindings.valuation =
          f := funext fun bindings => factors.extend_apply _ bindings
      rw [← through, ← List.map_map, ← List.map_map]
      exact same.map _

/-- Two searches whose matches correspond find the same binding sets, as far as `view` sees. -/
theorem patterns_perm {α : Type} {graph : Graph} {maxDepth : Nat} {view : Bindings → α}
    {last final : Scope} {patterns rearranged : List Pattern} (indexed : graph.Indexed)
    (accepted : Scope.ofPatterns patterns = .ok last)
    (accepted' : Scope.ofPatterns rearranged = .ok final)
    (move back : List PatternChoice → List PatternChoice)
    (moves : ∀ choices, Matches graph maxDepth patterns choices →
      Matches graph maxDepth rearranged (move choices) ∧ back (move choices) = choices ∧
        view (bindings rearranged (move choices)) = view (bindings patterns choices))
    (returns : ∀ choices, Matches graph maxDepth rearranged choices →
      Matches graph maxDepth patterns (back choices) ∧ move (back choices) = choices) :
    ((Match.patterns graph.snapshot maxDepth patterns).value.map view).Perm
      ((Match.patterns graph.snapshot maxDepth rearranged).value.map view) :=
  ((patterns_enumerate maxDepth indexed accepted).map view).perm
    ((patterns_enumerate maxDepth indexed accepted').map view) move back moves returns

end DocumentGraph.Match
