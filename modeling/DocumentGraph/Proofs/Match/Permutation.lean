import DocumentGraph.Proofs.Evaluate.Selection
import DocumentGraph.Proofs.Query.Site

namespace DocumentGraph

open Evaluate (countAll)
open Match (Bindings)
open Query (NodePattern Pattern)

/-! The order of the patterns.

Permuting the patterns of a query permutes the choices of its matches with them.  The pairs of
patterns and choices stay the same, and these pairs alone say whether the choices match and
what they bind.
-/

namespace Match

section Follows

variable {ι γ : Type} {left middle right : List ι} {move back : List γ → List γ}

/-- One choice for every item is moved with the items when they are permuted. -/
structure Follows (left right : List ι) (move back : List γ → List γ) : Prop where
  length : ∀ choices, choices.length = left.length → (move choices).length = right.length
  pairs : ∀ choices, choices.length = left.length →
    (left.zip choices).Perm (right.zip (move choices))
  returns : ∀ choices, choices.length = left.length → back (move choices) = choices

theorem Follows.trans {onward backward : List γ → List γ} (first : Follows left middle move back)
    (second : Follows middle right onward backward) :
    Follows left right (onward ∘ move) (back ∘ backward) where
  length := fun choices count => second.length _ (first.length choices count)
  pairs := fun choices count =>
    (first.pairs choices count).trans (second.pairs _ (first.length choices count))
  returns := fun choices count => by
    rw [Function.comp_apply, Function.comp_apply, second.returns _ (first.length choices count),
      first.returns choices count]

/-- Applies a function behind the first member of a list. -/
def behindFirst (move : List γ → List γ) : List γ → List γ
  | [] => []
  | choice :: choices => choice :: move choices

theorem Follows.cons (item : ι) (follows : Follows left right move back) :
    Follows (item :: left) (item :: right) (behindFirst move) (behindFirst back) where
  length := fun choices count => by
    cases choices with
    | nil => contradiction
    | cons choice choices =>
        have others := follows.length choices (Nat.succ.inj count)
        rw [behindFirst, List.length_cons, List.length_cons, others]
  pairs := fun choices count => by
    cases choices with
    | nil => contradiction
    | cons choice choices => exact (follows.pairs choices (Nat.succ.inj count)).cons (item, choice)
  returns := fun choices count => by
    cases choices with
    | nil => contradiction
    | cons choice choices =>
        rw [behindFirst, behindFirst, follows.returns choices (Nat.succ.inj count)]

/-- Exchanges the first two members of a list. -/
def exchanged : List γ → List γ
  | first :: second :: choices => second :: first :: choices
  | choices => choices

theorem follows_exchanged (first second : ι) (items : List ι) :
    Follows (first :: second :: items) (second :: first :: items)
      (exchanged : List γ → List γ) exchanged where
  length := fun choices count => by
    match choices with
    | left :: right :: rest => exact count
  pairs := fun choices count => by
    match choices with
    | left :: right :: rest => exact List.Perm.swap _ _ _
  returns := fun choices count => by
    match choices with
    | left :: right :: rest => rfl

theorem exists_follows (permuted : left.Perm right) : ∃ move back : List γ → List γ,
    Follows left right move back ∧ Follows right left back move := by
  induction permuted with
  | nil =>
      have follows : Follows ([] : List ι) [] (id : List γ → List γ) id :=
        ⟨fun _ count => count, fun _ _ => List.Perm.refl _, fun _ _ => rfl⟩
      exact ⟨id, id, follows, follows⟩
  | cons item _ ih =>
      obtain ⟨move, back, forth, returning⟩ := ih
      exact ⟨_, _, forth.cons item, returning.cons item⟩
  | swap first second items =>
      exact ⟨exchanged, exchanged, follows_exchanged second first items,
        follows_exchanged first second items⟩
  | trans _ _ firstIH secondIH =>
      obtain ⟨move, back, forth, returning⟩ := firstIH
      obtain ⟨onward, backward, forth', returning'⟩ := secondIH
      exact ⟨_, _, forth.trans forth', returning'.trans returning⟩

end Follows

variable {graph : Graph} {maxDepth : Nat} {patterns permuted : List Pattern}
  {choices moved : List PatternChoice}

theorem Matches.permute (matched : Matches graph maxDepth patterns choices)
    (pairs : (patterns.zip choices).Perm (permuted.zip moved))
    (length : permuted.length = moved.length) : Matches graph maxDepth permuted moved where
  fits := by
    obtain ⟨_, fits⟩ := List.forall₂_iff_zip.mp matched.fits
    exact List.forall₂_iff_zip.mpr ⟨length, fun member => fits (pairs.mem_iff.mpr member)⟩
  agree := matched.agree.of_subset (pairs.flatMap_right _).symm.subset

theorem valuation_permute (matched : Matches graph maxDepth patterns choices)
    (pairs : (patterns.zip choices).Perm (permuted.zip moved)) :
    (bindings permuted moved).valuation = (bindings patterns choices).valuation := by
  have same : (bound patterns choices).Perm (bound permuted moved) := pairs.flatMap_right _
  exact (valuation_store_eq matched.agree fun _ => same.mem_iff).symm

theorem valuations_perm {last final : Query.Scope} (maxDepth : Nat) (indexed : graph.Indexed)
    (accepted : Query.Scope.ofPatterns patterns = .ok last)
    (accepted' : Query.Scope.ofPatterns permuted = .ok final) (same : patterns.Perm permuted) :
    ((Match.patterns graph.snapshot maxDepth patterns).value.map Bindings.valuation).Perm
      ((Match.patterns graph.snapshot maxDepth permuted).value.map Bindings.valuation) := by
  obtain ⟨move, back, forth, returning⟩ :
      ∃ move back : List PatternChoice → List PatternChoice,
        Follows patterns permuted move back ∧ Follows permuted patterns back move :=
    exists_follows same
  refine patterns_perm indexed accepted accepted' move back ?_ ?_
  · intro choices matched
    have count : choices.length = patterns.length := matched.fits.length_eq.symm
    have pairs := forth.pairs choices count
    exact ⟨matched.permute pairs (forth.length choices count).symm, forth.returns choices count,
      valuation_permute matched pairs⟩
  · intro choices matched
    have count : choices.length = permuted.length := matched.fits.length_eq.symm
    exact ⟨matched.permute (returning.pairs choices count) (returning.length choices count).symm,
      returning.returns choices count⟩

end Match

namespace Query

variable {patterns permuted : List Pattern}

theorem Consistent.permute (consistent : Consistent (sites patterns))
    (same : patterns.Perm permuted) : Consistent (sites permuted) := by
  have sitesPerm : (sites patterns).Perm (sites permuted) := same.flatMap_right _
  exact consistent.perm (sitesPerm.filterMap _)
    fun site member => consistent.known site (sitesPerm.mem_iff.mpr member)

theorem check_permute {query : DocumentGraph.Query} (accepted : query.check = .ok ())
    (same : query.patterns.Perm permuted) :
    ({ query with patterns := permuted } : DocumentGraph.Query).check = .ok () := by
  obtain ⟨consistent, used⟩ := check_iff_consistent.mp accepted
  refine check_iff_consistent.mpr ⟨consistent.permute same, fun identifier member => ?_⟩
  obtain ⟨role, introduced⟩ := used identifier member
  have sitesPerm : (sites query.patterns).Perm (sites permuted) := same.flatMap_right _
  exact ⟨role, (sitesPerm.filterMap _).mem_iff.mp introduced⟩

/-- Counting uses no name. -/
theorem check_countAll (distinct : Bool) (columnAlias : Option String)
    {query : DocumentGraph.Query} (accepted : query.check = .ok ()) :
    ({ query with projection := countAll distinct columnAlias } : DocumentGraph.Query).check =
      .ok () := by
  obtain ⟨consistent, used⟩ := check_iff_consistent.mp accepted
  refine check_iff_consistent.mpr ⟨consistent, fun identifier member => used identifier ?_⟩
  have unused : (countAll distinct columnAlias).items.flatMap (·.expression.uses) = [] := rfl
  rw [uses, unused, List.append_nil] at member
  exact List.mem_append_left _ member

/-- The order of the patterns of a checked query does not matter for the binding sets that they
find, nor for their number. -/
theorem valuations_perm_of_patterns_perm (changes : List Graph.Change) (maxDepth : Nat)
    (query : Query) (accepted : query.check = .ok ()) (permuted : List Pattern)
    (same : query.patterns.Perm permuted) :
    let graph := (Graph.ofChanges changes).snapshot
    ({ query with patterns := permuted } : Query).check = .ok () ∧
    ((Match.patterns graph maxDepth query.patterns).value.map Bindings.valuation).Perm
      ((Match.patterns graph maxDepth permuted).value.map Bindings.valuation) ∧
    ∀ distinct columnAlias, ∃ table table',
      ({ query with projection := countAll distinct columnAlias } : Query).run graph maxDepth =
        .ok table ∧
      ({ query with
        patterns := permuted
        projection := countAll distinct columnAlias } : Query).run graph maxDepth = .ok table' ∧
      table.columns = table'.columns ∧ table.rows = table'.rows := by
  intro graph
  have accepted' := check_permute accepted same
  obtain ⟨scope, introduced, _⟩ := check_eq_ok_iff.mp accepted
  obtain ⟨scope', introduced', _⟩ := check_eq_ok_iff.mp accepted'
  have found :=
    Match.valuations_perm maxDepth (Graph.indexed_ofChanges changes) introduced introduced' same
  refine ⟨accepted', found, fun distinct columnAlias => ?_⟩
  have counted := check_countAll distinct columnAlias accepted
  exact run_countAll counted (check_permute counted same) rfl rfl rfl found

def chain : List Graph.Change :=
  [.node { id := "x" }, .node { id := "y" }, .node { id := "z" },
    .edge { id := "x-y", type := "LINKS_TO", source := "x", target := "y" },
    .edge { id := "y-z", type := "LINKS_TO", source := "y", target := "z" },
    .edge { id := "y-y", type := "LINKS_TO", source := "y", target := "y" }]

/-- `MATCH (a)-->(b), (b)-->(c) RETURN COUNT(*)` -/
def joined : Query :=
  let node (name : String) : NodePattern := { binder := some { name, position := {} } }
  let link (source target : String) : Pattern :=
    { start := node source
      hops := [{ relationship := { direction := .forward }, node := node target }] }
  { patterns := [link "a" "b", link "b" "c"]
    condition := none
    projection := countAll false none }

/-- The shared node is reached by either pattern first. -/
theorem valuations_perm_of_patterns_perm_joined : joined.check = .ok () ∧
    joined.patterns.Perm joined.patterns.reverse ∧
    ∃ table, ({ joined with patterns := joined.patterns.reverse } : Query).run
        (Graph.ofChanges chain).snapshot 1 = .ok table ∧
      table.rows = [[("COUNT(*)", .integer 4)]] := by
  have same : joined.patterns.Perm joined.patterns.reverse := (List.reverse_perm _).symm
  obtain ⟨_, _, counted⟩ := valuations_perm_of_patterns_perm chain 1 joined rfl _ same
  obtain ⟨table, table', ran, ran', _, rows⟩ := counted false none
  have found : table.rows = [[("COUNT(*)", .integer 4)]] :=
    Except.ok.inj ((congrArg (Except.map Table.rows) ran).symm.trans rfl)
  exact ⟨rfl, same, table', ran', rows.symm.trans found⟩

end Query

end DocumentGraph
