import DocumentGraph.Proofs.Evaluate.Compare
import DocumentGraph.Proofs.Number.Rounding
import DocumentGraph.Proofs.Result.Value

namespace DocumentGraph

/-! How far comparisons agree with one another.

Two integers are compared as they are, an integer and a floating-point number only after the
integer is rounded.  So `<=` and `=` are an order and its equality, except where a floating-point
number stands between two integers that are both rounded to it.
-/

open Number (Binary64)

namespace Number.Binary64

variable {x y z : Binary64} {order order' : Ordering}

theorem compare?_eq_some_iff : x.compare? y = some order ↔
    x.isNaN = false ∧ y.isNaN = false ∧ compare x.orderKey y.orderKey = order := by
  unfold compare?
  cases x.isNaN <;> cases y.isNaN <;> simp

theorem compare?_swap (ordered : x.compare? y = some order) :
    y.compare? x = some order.swap := by
  rw [compare?_eq_some_iff] at ordered ⊢
  obtain ⟨number, number', rfl⟩ := ordered
  exact ⟨number', number, Std.OrientedOrd.eq_swap⟩

theorem compare?_trans (first : x.compare? y = some order) (second : y.compare? z = some order')
    (le : order.isLE = true) (le' : order'.isLE = true) :
    ∃ order, x.compare? z = some order ∧ order.isLE = true := by
  rw [compare?_eq_some_iff] at first second
  obtain ⟨number, _, rfl⟩ := first
  obtain ⟨_, number', rfl⟩ := second
  exact ⟨_, compare?_eq_some_iff.mpr ⟨number, number', rfl⟩, Std.TransCmp.isLE_trans le le'⟩

/-- Different integers that both count as equal to a number. -/
structure Blurs (x : Binary64) (left right : Int) : Prop where
  apart : left ≠ right
  left_eq : (ofInt left).compare? x = some .eq
  right_eq : (ofInt right).compare? x = some .eq

variable {left right : Int}

theorem Blurs.symm (blurs : x.Blurs left right) : x.Blurs right left :=
  ⟨blurs.apart.symm, blurs.right_eq, blurs.left_eq⟩

theorem Blurs.large (blurs : x.Blurs left right) :
    2 ^ 53 ≤ left.natAbs ∧ 2 ^ 53 ≤ right.natAbs := by
  have keys : (ofInt left).orderKey = (ofInt right).orderKey := by
    have first := (compare?_eq_some_iff.mp blurs.left_eq).2.2
    have second := (compare?_eq_some_iff.mp blurs.right_eq).2.2
    exact (Std.compare_eq_iff_eq.mp first).trans (Std.compare_eq_iff_eq.mp second).symm
  constructor
  · apply Nat.le_of_not_lt
    intro small
    exact blurs.apart (eq_of_orderKey_ofInt small keys)
  · apply Nat.le_of_not_lt
    intro small
    exact blurs.apart (eq_of_orderKey_ofInt small keys.symm).symm

theorem compare?_ofInt (left right : Int) :
    (ofInt left).compare? (ofInt right) =
      some (compare (ofInt left).orderKey (ofInt right).orderKey) :=
  compare?_eq_some_iff.mpr ⟨isNaN_ofInt left, isNaN_ofInt right, rfl⟩

theorem compare?_ofInt_isLE (le : left ≤ right) :
    ∃ order, (ofInt left).compare? (ofInt right) = some order ∧ order.isLE = true :=
  ⟨_, compare?_ofInt left right, Int.isLE_compare.mpr (orderKey_ofInt_mono le)⟩

/-- The integer that is greater lies between the number and the one that is smaller, so all three
round alike. -/
theorem blurs_of_isLE (less : right < left) (first : (ofInt left).compare? x = some order)
    (second : x.compare? (ofInt right) = some order') (le : order.isLE = true)
    (le' : order'.isLE = true) : x.Blurs left right := by
  have keys := orderKey_ofInt_mono (Int.le_of_lt less)
  obtain ⟨number, other, rfl⟩ := compare?_eq_some_iff.mp first
  obtain ⟨_, number', rfl⟩ := compare?_eq_some_iff.mp second
  have lower := Int.isLE_compare.mp le
  have upper := Int.isLE_compare.mp le'
  refine ⟨Int.ne_of_gt less, ?_, ?_⟩
  · exact compare?_eq_some_iff.mpr ⟨number, other, Std.compare_eq_iff_eq.mpr (by omega)⟩
  · exact compare?_eq_some_iff.mpr ⟨number', other, Std.compare_eq_iff_eq.mpr (by omega)⟩

end Number.Binary64

namespace Value

variable {left right a b c : Value} {order order' : Ordering}

def isFloat : Value → Bool
  | float _ => true
  | _ => false

/-- The order that a comparison finds between two values. -/
inductive Ranking : Value → Value → Ordering → Prop where
  | integers (left right : Int) : Ranking (integer left) (integer right) (compare left right)
  | strings (left right : String) : Ranking (string left) (string right) (compare left right)
  | rounded {left right : Value} {x y : Binary64} {order : Ordering}
      (mixed : left.isFloat = true ∨ right.isFloat = true)
      (leftNumber : left.toBinary64? = some x) (rightNumber : right.toBinary64? = some y)
      (ordered : x.compare? y = some order) : Ranking left right order

theorem order?_eq_some_iff : left.order? right = some order ↔ Ranking left right order := by
  constructor
  · intro found
    unfold order? at found
    split at found
    · obtain rfl := Option.some.inj found
      exact .integers _ _
    · obtain rfl := Option.some.inj found
      exact .strings _ _
    · rename_i notIntegers notStrings
      simp only [Option.bind_eq_bind, Option.bind_eq_some_iff] at found
      obtain ⟨x, leftNumber, y, rightNumber, ordered⟩ := found
      refine .rounded ?_ leftNumber rightNumber ordered
      cases left <;> cases right <;> simp_all [toBinary64?, isFloat]
  · intro ranking
    cases ranking with
    | integers left right => rfl
    | strings left right => rfl
    | rounded mixed leftNumber rightNumber ordered =>
        unfold order?
        split
        · simp [isFloat] at mixed
        · contradiction
        · simp [leftNumber, rightNumber, ordered]

theorem Ranking.swap (ranking : Ranking left right order) : Ranking right left order.swap := by
  cases ranking with
  | integers left right =>
      rw [← Std.OrientedOrd.eq_swap]
      exact .integers right left
  | strings left right =>
      rw [← Std.OrientedOrd.eq_swap]
      exact .strings right left
  | rounded mixed leftNumber rightNumber ordered =>
      exact .rounded mixed.symm rightNumber leftNumber (Binary64.compare?_swap ordered)

theorem Ranking.unique (ranking : Ranking left right order) (ranking' : Ranking left right order') :
    order = order' :=
  Option.some.inj ((order?_eq_some_iff.mpr ranking).symm.trans (order?_eq_some_iff.mpr ranking'))

/-- Values that are in order both ways are equal. -/
theorem Ranking.eq_of_isLE (ranking : Ranking left right order)
    (ranking' : Ranking right left order') (le : order.isLE = true) (le' : order'.isLE = true) :
    order = .eq := by
  rw [← ranking.swap.unique ranking'] at le'
  cases order with
  | lt => contradiction
  | eq => rfl
  | gt => contradiction

theorem Ranking.given (ranking : Ranking left right order) :
    left.isNull = false ∧ right.isNull = false := by
  cases ranking with
  | integers left right => exact ⟨rfl, rfl⟩
  | strings left right => exact ⟨rfl, rfl⟩
  | rounded mixed leftNumber rightNumber ordered =>
      constructor
      · cases left with
        | null => contradiction
        | _ => rfl
      · cases right with
        | null => contradiction
        | _ => rfl

theorem eq_float_of_isFloat {x : Binary64} (number : left.toBinary64? = some x)
    (isFloat : left.isFloat = true) : left = float x := by
  cases left with
  | float value => exact congrArg float (Option.some.inj number)
  | _ => contradiction

theorem exists_integer_of_not_isFloat {x : Binary64} (number : left.toBinary64? = some x)
    (exactly : ¬left.isFloat = true) : ∃ i, left = integer i ∧ Binary64.ofInt i = x := by
  cases left with
  | integer value => exact ⟨value, rfl, Option.some.inj number⟩
  | float value => exact absurd rfl exactly
  | _ => contradiction

/-- A comparison that goes through a third value fails to hold only between integers that are
rounded to that value. -/
theorem Ranking.trans (first : Ranking a b order) (second : Ranking b c order')
    (le : order.isLE = true) (le' : order'.isLE = true) :
    (∃ order, Ranking a c order ∧ order.isLE = true) ∨
      ∃ i x k, a = integer i ∧ b = float x ∧ c = integer k ∧ k < i ∧ Binary64.Blurs x i k := by
  cases first with
  | integers i j =>
      cases second with
      | integers j k => exact .inl ⟨_, .integers i k, Std.TransCmp.isLE_trans le le'⟩
      | rounded mixed leftNumber rightNumber ordered =>
          obtain rfl := Option.some.inj leftNumber
          obtain ⟨_, rounded, lower⟩ := Binary64.compare?_ofInt_isLE (Int.isLE_compare.mp le)
          obtain ⟨_, ordered, upper⟩ := Binary64.compare?_trans rounded ordered lower le'
          have mixed : c.isFloat = true := mixed.resolve_left (by simp [isFloat])
          exact .inl ⟨_, .rounded (.inr mixed) rfl rightNumber ordered, upper⟩
  | strings s t =>
      cases second with
      | strings t u => exact .inl ⟨_, .strings s u, Std.TransCmp.isLE_trans le le'⟩
      | rounded mixed leftNumber => contradiction
  | rounded mixed leftNumber rightNumber ordered =>
      cases second with
      | integers j k =>
          obtain rfl := Option.some.inj rightNumber
          obtain ⟨_, rounded, lower⟩ := Binary64.compare?_ofInt_isLE (Int.isLE_compare.mp le')
          obtain ⟨_, ordered, upper⟩ := Binary64.compare?_trans ordered rounded le lower
          have mixed : a.isFloat = true := mixed.resolve_right (by simp [isFloat])
          exact .inl ⟨_, .rounded (.inl mixed) leftNumber rfl ordered, upper⟩
      | strings t u => contradiction
      | rounded mixed' leftNumber' rightNumber' ordered' =>
          obtain rfl := Option.some.inj (rightNumber.symm.trans leftNumber')
          by_cases ends : a.isFloat = true ∨ c.isFloat = true
          · obtain ⟨_, ordered, upper⟩ := Binary64.compare?_trans ordered ordered' le le'
            exact .inl ⟨_, .rounded ends leftNumber rightNumber' ordered, upper⟩
          · -- Two integers at the ends: they are compared as they are, the middle was not.
            have middle := eq_float_of_isFloat rightNumber (mixed.resolve_left (mt .inl ends))
            obtain ⟨i, rfl, rfl⟩ := exists_integer_of_not_isFloat leftNumber (mt .inl ends)
            obtain ⟨k, rfl, rfl⟩ := exists_integer_of_not_isFloat rightNumber' (mt .inr ends)
            by_cases less : k < i
            · exact .inr ⟨i, _, k, rfl, middle, rfl, less,
                Binary64.blurs_of_isLE less ordered ordered' le le'⟩
            · exact .inl ⟨_, .integers i k, Int.isLE_compare.mpr (Int.not_lt.mp less)⟩

theorem Ranking.equal_iff (ranking : Ranking left right order) :
    left.equal right = true ↔ order = .eq := by
  cases ranking with
  | integers left right => simp [equal]
  | strings left right => simp [equal, same]
  | rounded mixed leftNumber rightNumber ordered =>
      cases left with
      | integer i =>
          have mixed : right.isFloat = true := mixed.resolve_left (by simp [isFloat])
          obtain rfl := eq_float_of_isFloat rightNumber mixed
          obtain rfl := Option.some.inj leftNumber
          simp [equal, ordered]
      | float x =>
          obtain rfl := Option.some.inj leftNumber
          cases right with
          | integer k =>
              obtain rfl := Option.some.inj rightNumber
              simp [equal, ordered]
          | float y =>
              obtain rfl := Option.some.inj rightNumber
              simp [equal, ordered]
          | _ => contradiction
      | _ => contradiction

theorem equal_eq_same (notNumber : left.isNumber = false) : left.equal right = left.same right := by
  cases left with
  | integer i => contradiction
  | float x => contradiction
  | _ => rfl

theorem ranking_of_equal (number : left.isNumber = true) (equal : left.equal right = true) :
    right.isNumber = true ∧ Ranking left right .eq := by
  have ranked (mixed : left.isFloat = true ∨ right.isFloat = true) {x y : Binary64}
      (leftNumber : left.toBinary64? = some x) (rightNumber : right.toBinary64? = some y)
      (same : decide (x.compare? y = some .eq) = true) : Ranking left right .eq :=
    .rounded mixed leftNumber rightNumber (of_decide_eq_true same)
  cases left with
  | integer i =>
      cases right with
      | integer k =>
          obtain rfl := of_decide_eq_true equal
          have level : compare i i = .eq := Std.ReflCmp.compare_self
          exact ⟨rfl, level ▸ .integers i i⟩
      | float y => exact ⟨rfl, ranked (.inr rfl) rfl rfl equal⟩
      | _ => simp [Value.equal, same] at equal
  | float x =>
      cases right with
      | integer k => exact ⟨rfl, ranked (.inl rfl) rfl rfl equal⟩
      | float y => exact ⟨rfl, ranked (.inl rfl) rfl rfl equal⟩
      | _ => simp [Value.equal, same] at equal
  | _ => contradiction

theorem isNumber_of_same (notNumber : left.isNumber = false) (same : left.same right = true) :
    right.isNumber = false := by
  cases right with
  | integer k => cases left <;> simp_all [Value.same, isNumber]
  | float y => cases left <;> simp_all [Value.same, isNumber]
  | _ => rfl

/-- Equality that goes through a third value fails to hold only between integers that are rounded
to that value. -/
theorem equal_trans (first : a.equal b = true) (second : b.equal c = true) :
    a.equal c = true ∨
      ∃ i x k, a = integer i ∧ b = float x ∧ c = integer k ∧ Binary64.Blurs x i k := by
  by_cases number : a.isNumber = true
  · obtain ⟨number', ranking⟩ := ranking_of_equal number first
    obtain ⟨_, ranking'⟩ := ranking_of_equal number' second
    rcases ranking.trans ranking' rfl rfl with ⟨order, ends, le⟩ | ⟨i, x, k, rfl, rfl, rfl, _, blurs⟩
    · rcases ranking'.swap.trans ranking.swap rfl rfl with
        ⟨order', ends', le'⟩ | ⟨k, x, i, rfl, rfl, rfl, _, blurs⟩
      · exact .inl (ends.equal_iff.mpr (ends.eq_of_isLE ends' le le'))
      · exact .inr ⟨i, x, k, rfl, rfl, rfl, blurs.symm⟩
    · exact .inr ⟨i, x, k, rfl, rfl, rfl, blurs⟩
  · have notNumber : a.isNumber = false := Bool.eq_false_iff.mpr number
    rw [equal_eq_same notNumber] at first
    rw [equal_eq_same (isNumber_of_same notNumber first)] at second
    rw [same_iff] at first second
    rw [equal_eq_same notNumber, same_iff]
    exact .inl (first.trans second)

end Value

namespace Query.ComparisonOperator

variable {left right : Value}

theorem apply_lessEqual_of_ranking {order : Ordering}
    (ranking : Value.Ranking left right order) :
    lessEqual.apply left right = .ok order.isLE := by
  have found := Value.order?_eq_some_iff.mpr ranking
  simp only [apply, ranking.given, Bool.or_self, Bool.false_eq_true, if_false, ordered, found]
  cases order <;> rfl

theorem apply_of_isNull {operator : ComparisonOperator}
    (missing : left.isNull = true ∨ right.isNull = true) :
    operator.apply left right = .ok false := by
  unfold apply
  exact if_pos (by simpa using missing)

/-- A comparison with `<=` that raises no error has a NULL on one side or finds an order. -/
theorem ranking_of_apply {holds : Bool} (compared : lessEqual.apply left right = .ok holds) :
    (left.isNull = true ∨ right.isNull = true) ∨
      ∃ order, Value.Ranking left right order ∧ order.isLE = holds := by
  by_cases missing : left.isNull = true ∨ right.isNull = true
  · exact .inl missing
  · cases found : left.order? right with
    | some order =>
        have ranking := Value.order?_eq_some_iff.mp found
        rw [apply_lessEqual_of_ranking ranking] at compared
        exact .inr ⟨order, ranking, Except.ok.inj compared⟩
    | none =>
        have given : (left.isNull || right.isNull) = false := by simpa using missing
        simp only [apply, given, Bool.false_eq_true, if_false, ordered, found] at compared
        contradiction

theorem ranking_of_lessEqual (holds : lessEqual.apply left right = .ok true) :
    ∃ order, Value.Ranking left right order ∧ order.isLE = true := by
  rcases ranking_of_apply holds with missing | ranked
  · rw [apply_of_isNull missing] at holds
    contradiction
  · exact ranked

theorem apply_equals (leftGiven : left.isNull = false) (rightGiven : right.isNull = false) :
    equals.apply left right = .ok (left.equal right) := by
  simp only [apply, leftGiven, rightGiven, Bool.or_self, Bool.false_eq_true, if_false]

theorem equal_of_equals (holds : equals.apply left right = .ok true) :
    left.isNull = false ∧ right.isNull = false ∧ left.equal right = true := by
  by_cases missing : left.isNull = true ∨ right.isNull = true
  · rw [apply_of_isNull missing] at holds
    contradiction
  · obtain ⟨leftGiven, rightGiven⟩ := not_or.mp missing
    have leftGiven := Bool.eq_false_iff.mpr leftGiven
    have rightGiven := Bool.eq_false_iff.mpr rightGiven
    rw [apply_equals leftGiven rightGiven] at holds
    exact ⟨leftGiven, rightGiven, Except.ok.inj holds⟩

/-- Where there is an order, `=` is `<=` both ways. -/
theorem equals_iff_of_ranking {order : Ordering} (ranking : Value.Ranking left right order) :
    lessEqual.apply left right = .ok true ∧ lessEqual.apply right left = .ok true ↔
      equals.apply left right = .ok true := by
  rw [apply_lessEqual_of_ranking ranking, apply_lessEqual_of_ranking ranking.swap,
    apply_equals ranking.given.1 ranking.given.2, Except.ok.injEq, Except.ok.injEq, Except.ok.injEq,
    ranking.equal_iff]
  cases order <;> simp

/-- `<=` and `=` carry over from one pair to the next, except through a number that blurs two
integers; those are both large.  Wherever there is an order, `=` is `<=` both ways. -/
theorem comparisons_consistent (a b c : Value) :
    (lessEqual.apply a b = .ok true → lessEqual.apply b c = .ok true →
      ∃ holds, lessEqual.apply a c = .ok holds ∧
        (holds = false ↔ ∃ i x k, a = .integer i ∧ b = .float x ∧ c = .integer k ∧
          k < i ∧ Binary64.Blurs x i k)) ∧
    (equals.apply a b = .ok true → equals.apply b c = .ok true →
      ∃ holds, equals.apply a c = .ok holds ∧
        (holds = false ↔ ∃ i x k, a = .integer i ∧ b = .float x ∧ c = .integer k ∧
          Binary64.Blurs x i k)) ∧
    (∀ holds, lessEqual.apply a b = .ok holds →
      (lessEqual.apply a b = .ok true ∧ lessEqual.apply b a = .ok true ↔
        equals.apply a b = .ok true)) ∧
    (∀ i x k, Binary64.Blurs x i k → 2 ^ 53 ≤ i.natAbs ∧ 2 ^ 53 ≤ k.natAbs) := by
  refine ⟨fun first second => ?_, fun first second => ?_, fun holds compared => ?_,
    fun i x k blurs => blurs.large⟩
  · obtain ⟨_, ranking, le⟩ := ranking_of_lessEqual first
    obtain ⟨_, ranking', le'⟩ := ranking_of_lessEqual second
    rcases ranking.trans ranking' le le' with ⟨order, ends, upper⟩ | blurred
    · refine ⟨true, upper ▸ apply_lessEqual_of_ranking ends, iff_of_false nofun ?_⟩
      intro ⟨i, x, k, left, _, right, less, _⟩
      subst left right
      obtain rfl := ends.unique (.integers i k)
      have le_ends := Int.isLE_compare.mp upper
      omega
    · obtain ⟨i, x, k, rfl, rfl, rfl, less, blurs⟩ := blurred
      refine ⟨false, ?_, iff_of_true rfl ⟨i, x, k, rfl, rfl, rfl, less, blurs⟩⟩
      rw [apply_lessEqual_of_ranking (.integers i k)]
      have greater : (compare i k).isLE = false := by
        rw [Bool.eq_false_iff, ne_eq, Int.isLE_compare]
        omega
      rw [greater]
  · obtain ⟨leftGiven, _, equal⟩ := equal_of_equals first
    obtain ⟨_, rightGiven, equal'⟩ := equal_of_equals second
    refine ⟨a.equal c, apply_equals leftGiven rightGiven, ?_⟩
    constructor
    · intro apart
      exact (Value.equal_trans equal equal').resolve_left (by rw [apart]; exact nofun)
    · intro ⟨i, x, k, left, _, right, blurs⟩
      subst left right
      exact decide_eq_false blurs.apart
  · rcases ranking_of_apply compared with missing | ⟨order, ranking, _⟩
    · rw [apply_of_isNull missing, apply_of_isNull missing]
      exact iff_of_false (fun both => nomatch both.1) nofun
    · exact equals_iff_of_ranking ranking

/-- The middle number is the first integer, and the second one is rounded to it. -/
theorem comparisons_consistent_ascending :
    let a := Value.integer 9007199254740992
    let b := Value.float ⟨0x4340000000000000⟩
    let c := Value.integer 9007199254740993
    lessEqual.apply a b = .ok true ∧ lessEqual.apply b c = .ok true ∧
      lessEqual.apply a c = .ok true ∧
    equals.apply a b = .ok true ∧ equals.apply b c = .ok true ∧
      equals.apply a c = .ok false := by
  intro a b c
  have first : lessEqual.apply a b = .ok true := by decide +kernel
  have second : lessEqual.apply b c = .ok true := by decide +kernel
  have equal : equals.apply a b = .ok true := by decide +kernel
  have equal' : equals.apply b c = .ok true := by decide +kernel
  have back : lessEqual.apply b a = .ok true := by decide +kernel
  have blurs : Binary64.Blurs ⟨0x4340000000000000⟩ 9007199254740992 9007199254740993 :=
    ⟨by decide, by decide +kernel, by decide +kernel⟩
  obtain ⟨ordered, equated, both, _⟩ := comparisons_consistent a b c
  refine ⟨first, second, ?_, (both true first).mp ⟨first, back⟩, equal', ?_⟩
  · obtain ⟨holds, outcome, only⟩ := ordered first second
    cases holds with
    | true => exact outcome
    | false =>
        obtain ⟨i, _, k, left, _, right, less, _⟩ := only.mp rfl
        obtain rfl := Value.integer.inj left
        obtain rfl := Value.integer.inj right
        omega
  · obtain ⟨holds, outcome, only⟩ := equated equal equal'
    rw [only.mpr ⟨_, _, _, rfl, rfl, rfl, blurs⟩] at outcome
    exact outcome

/-- The number lies between the two integers, which are in the wrong order, and equals both. -/
theorem comparisons_inconsistent :
    let greater := Value.integer 9007199254740993
    let middle := Value.float ⟨0x4340000000000000⟩
    let less := Value.integer 9007199254740992
    lessEqual.apply greater middle = .ok true ∧ lessEqual.apply middle less = .ok true ∧
      lessEqual.apply greater less = .ok false ∧
    equals.apply greater middle = .ok true ∧ equals.apply middle less = .ok true ∧
      equals.apply greater less = .ok false := by
  decide +kernel

end Query.ComparisonOperator

end DocumentGraph
