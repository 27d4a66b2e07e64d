import DocumentGraph.Proofs.Evaluate.Run
import DocumentGraph.Proofs.Query.RoundTrip

namespace DocumentGraph.Query

/-! Heights of conditions.

A check or an evaluation of a condition goes down into its parts, and so nests as deeply as the
condition is high.  The allowance for negations and parentheses is there so that no text can make
them nest without bound.  It bounds the steps into negated conditions and into right sides; but AND
and OR in a row go down on the left, and those steps have no bound.
-/

/-- The part of a condition that a step down leads to. -/
inductive Side where
  | negated | left | right

namespace Condition

/-- What the steps from a condition down to a comparison cost, at most. -/
def depth (cost : Side → Nat) : Condition → Nat
  | comparison _ _ _ => 0
  | nullCheck _ _ => 0
  | not inner => inner.depth cost + cost .negated
  | and left right => max (left.depth cost + cost .left) (right.depth cost + cost .right)
  | or left right => max (left.depth cost + cost .left) (right.depth cost + cost .right)

/-- How many conditions stand inside one another, at most. -/
def height (condition : Condition) : Nat :=
  condition.depth (fun _ => 1) + 1

/-- How many steps lead into left sides of AND and OR, at most. -/
def lefts (condition : Condition) : Nat :=
  condition.depth fun
    | .left => 1
    | _ => 0

/-- How many steps lead into negated conditions and right sides, at most. -/
def turns (condition : Condition) : Nat :=
  condition.depth fun
    | .left => 0
    | _ => 1

variable {condition : Condition} {cost cost' : Side → Nat}

theorem depth_mono (less : ∀ side, cost side ≤ cost' side) :
    condition.depth cost ≤ condition.depth cost' := by
  have negated := less .negated
  have left := less .left
  have right := less .right
  induction condition with
  | comparison _ _ _ => exact Nat.le_refl 0
  | nullCheck _ _ => exact Nat.le_refl 0
  | not inner ih => simp only [depth]; omega
  | and left right leftIH rightIH => simp only [depth]; omega
  | or left right leftIH rightIH => simp only [depth]; omega

theorem depth_add_le (condition : Condition) (cost cost' : Side → Nat) :
    condition.depth (fun side => cost side + cost' side) ≤
      condition.depth cost + condition.depth cost' := by
  induction condition with
  | comparison _ _ _ => exact Nat.zero_le _
  | nullCheck _ _ => exact Nat.zero_le _
  | not inner ih => simp only [depth]; omega
  | and left right leftIH rightIH => simp only [depth]; omega
  | or left right leftIH rightIH => simp only [depth]; omega

theorem lefts_lt_height (condition : Condition) : condition.lefts < condition.height :=
  Nat.lt_succ_of_le (depth_mono fun side => by cases side <;> decide)

theorem height_le (condition : Condition) :
    condition.height ≤ condition.lefts + condition.turns + 1 := by
  have each : (fun _ : Side => 1) = fun side =>
      (match side with | .left => 1 | _ => 0) + (match side with | .left => 0 | _ => 1) := by
    funext side
    cases side <;> rfl
  rw [height, each]
  exact Nat.succ_le_succ (depth_add_le _ _ _)

theorem depth_unplaced (condition : Condition) (cost : Side → Nat) :
    condition.unplaced.depth cost = condition.depth cost := by
  induction condition with
  | comparison _ _ _ => rfl
  | nullCheck _ _ => rfl
  | not inner ih => rw [unplaced, depth, depth, ih]
  | and left right leftIH rightIH => rw [unplaced, depth, depth, leftIH, rightIH]
  | or left right leftIH rightIH => rw [unplaced, depth, depth, leftIH, rightIH]

/-- The turns at a level that its words allow without a negation or parentheses: into the right side
of an AND, and before that of an OR. -/
def freeTurns : Grammar.Level → Nat
  | .term => 0
  | .conjunction => 1
  | .disjunction => 2

/-- Every negation and every pair of parentheses allows two more turns. -/
theorem turns_le (condition : Condition) (level : Grammar.Level) :
    condition.turns ≤ 2 * condition.nesting level + freeTurns level := by
  unfold turns
  induction condition generalizing level with
  | comparison _ _ _ => exact Nat.zero_le _
  | nullCheck _ _ => exact Nat.zero_le _
  | not inner ih =>
      have deeper := ih .term
      simp only [freeTurns] at deeper
      simp only [depth, nesting]
      omega
  | and left right leftIH rightIH =>
      have before := leftIH .conjunction
      have behind := rightIH .term
      have allowed : 1 ≤ 2 * (if level.holdsAnd then 0 else 1) + freeTurns level := by
        cases level <;> decide
      simp only [freeTurns] at before behind
      simp only [depth, nesting]
      omega
  | or left right leftIH rightIH =>
      have before := leftIH .disjunction
      have behind := rightIH .conjunction
      have allowed : 2 ≤ 2 * (if level.holdsOr then 0 else 1) + freeTurns level := by
        cases level <;> decide
      simp only [freeTurns] at before behind
      simp only [depth, nesting]
      omega

end Condition

def nullCheckOfName : Condition :=
  .nullCheck { owner := { name := "n", position := {} }, property := "name" } false

/-- Null checks with AND between them, that many times. -/
def nullChecks : Nat → Condition
  | 0 => nullCheckOfName
  | joins + 1 => .and (nullChecks joins) nullCheckOfName

/-- A query with the null checks for its condition. -/
def nullChecked (joins : Nat) : DocumentGraph.Query where
  patterns := [{ start := { binder := some { name := "n", position := {} } }, hops := [] }]
  condition := some (nullChecks joins)
  projection := {
    distinct := false
    items := [{ expression := .element { name := "n", position := {} } }] }

theorem height_nullChecks (joins : Nat) : (nullChecks joins).height = joins + 1 := by
  have depth : (nullChecks joins).depth (fun _ => 1) = joins := by
    induction joins with
    | zero => rfl
    | succ joins ih =>
        have single : nullCheckOfName.depth (fun _ => 1) = 0 := rfl
        rw [nullChecks, Condition.depth, ih, single]
        omega
  rw [Condition.height, depth]

theorem wellFormed_nullChecks (joins : Nat) : (nullChecks joins).WellFormed := by
  have single : nullCheckOfName.WellFormed := ⟨by decide, by decide⟩
  induction joins with
  | zero => exact single
  | succ joins ih => exact ⟨ih, single⟩

/-- AND in a row needs no parentheses. -/
theorem nesting_nullChecks (joins : Nat) {level : Grammar.Level} (held : level.holdsAnd = true) :
    (nullChecks joins).nesting level = 0 := by
  have single (level : Grammar.Level) : nullCheckOfName.nesting level = 0 := by cases level <;> rfl
  induction joins generalizing level with
  | zero => exact single level
  | succ joins ih => rw [nullChecks, Condition.nesting, ih rfl, single, held]; rfl

theorem uses_nullChecks (joins : Nat) :
    ∀ identifier ∈ (nullChecks joins).uses, identifier.name = "n" := by
  have single : ∀ identifier ∈ nullCheckOfName.uses, identifier.name = "n" := by decide
  induction joins with
  | zero => exact single
  | succ joins ih => exact List.forall_mem_append.mpr ⟨ih, single⟩

theorem wellFormed_nullChecked (joins : Nat) : (nullChecked joins).WellFormed where
  hasPattern := by simp [nullChecked]
  patterns := by
    intro pattern inside
    obtain rfl := List.mem_singleton.mp inside
    decide
  condition := by
    rintro _ ⟨⟩
    exact wellFormed_nullChecks joins
  shallow := by
    rintro _ ⟨⟩
    rw [nesting_nullChecks joins rfl]
    decide
  hasItem := by simp [nullChecked]
  items := by
    intro item inside
    obtain rfl := List.mem_singleton.mp inside
    decide
  checked := by
    refine check_eq_ok_iff.mpr ⟨[("n", .node)], rfl, fun identifier used => ?_⟩
    have named : identifier.name = "n" := by
      rcases List.mem_append.mp used with inside | inside
      · exact uses_nullChecks joins identifier inside
      · obtain rfl := List.mem_singleton.mp inside
        rfl
    rw [named]
    rfl

theorem exists_prepare_nullChecked (joins : Nat) : ∃ query condition,
    prepare (nullChecked joins).render = .ok query ∧ query.condition = some condition ∧
      condition.height = joins + 1 := by
  obtain ⟨query, prepared, same⟩ := prepare_render_of_wellFormed (wellFormed_nullChecked joins)
  have filtered : query.condition.map Condition.unplaced = some (nullChecks joins).unplaced :=
    congrArg Query.condition same
  obtain ⟨condition, held, alike⟩ := Option.map_eq_some_iff.mp filtered
  refine ⟨query, condition, prepared, held, ?_⟩
  rw [← height_nullChecks joins, Condition.height, ← Condition.depth_unplaced, alike,
    Condition.depth_unplaced, Condition.height]

/-- A condition of a query that a text spells is not much higher than its left sides alone: the
negations and the right sides that lie inside one another are bounded.  So heights have a bound on
just those texts on which the left sides have one. -/
theorem height_of_prepare {source : String} {query : DocumentGraph.Query} {condition : Condition}
    (prepared : prepare source = .ok query) (filtered : query.condition = some condition) :
    condition.nesting .disjunction < Grammar.nestingLimit ∧
      condition.turns ≤ 2 * Grammar.nestingLimit ∧ condition.lefts < condition.height ∧
      condition.height ≤ condition.lefts + 2 * Grammar.nestingLimit + 1 := by
  have shallow := (wellFormed_of_prepare prepared).shallow condition filtered
  have turns : condition.turns ≤ 2 * Grammar.nestingLimit := by
    have allowed := condition.turns_le .disjunction
    simp only [Condition.freeTurns] at allowed
    omega
  have height := condition.height_le
  exact ⟨shallow, turns, condition.lefts_lt_height, by omega⟩

theorem height_of_prepare_nullChecked : ∃ query condition,
    prepare (nullChecked 299).render = .ok query ∧ query.condition = some condition ∧
      condition.height = 300 ∧ condition.nesting .disjunction < 64 ∧ 171 ≤ condition.lefts := by
  obtain ⟨query, condition, prepared, filtered, height⟩ := exists_prepare_nullChecked 299
  obtain ⟨shallow, _, _, high⟩ := height_of_prepare prepared filtered
  simp only [Grammar.nestingLimit] at shallow high
  exact ⟨query, condition, prepared, filtered, height, shallow, by omega⟩

/-- No bound holds for the heights of all conditions that are read. -/
theorem height_not_bounded : ¬ ∃ bound, ∀ source query condition, prepare source = .ok query →
    query.condition = some condition → condition.height ≤ bound := by
  rintro ⟨bound, bounded⟩
  obtain ⟨query, condition, prepared, filtered, height⟩ := exists_prepare_nullChecked bound
  have low := bounded _ query condition prepared filtered
  omega

end DocumentGraph.Query
