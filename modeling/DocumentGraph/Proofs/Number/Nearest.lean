import DocumentGraph.Proofs.Number.Rounding
import Mathlib.Algebra.Order.Field.Basic
import Mathlib.Algebra.Order.Field.Rat
import Mathlib.Algebra.Order.Group.Unbundled.Int
import Mathlib.Algebra.Order.Ring.Abs
import Mathlib.Data.Nat.Dist
import Mathlib.Tactic.Linarith

namespace DocumentGraph.Number.Binary64

/-! Rounding to the nearest number.

Finite numbers are rational numbers, and the number that a ratio is rounded to is nearer to the
ratio than every other one, or equally near and with the even significand of the two.  Distances are
compared as whole numbers: a ratio and a number are brought to a common denominator, which counts
units in parts of the ratio's denominator.
-/

variable {numerator denominator significand exponent : Nat} {x y : Binary64} {exact : ℚ}

/-- An absolute value with its sign. -/
def withSign (negative : Bool) (absolute : Nat) : Int :=
  if negative then -(absolute : Int) else absolute

theorem withSign_zero (negative : Bool) : withSign negative 0 = 0 := by
  cases negative <;> rfl

theorem natAbs_withSign (negative : Bool) (absolute : Nat) :
    (withSign negative absolute).natAbs = absolute := by
  cases negative
  · exact Int.natAbs_natCast absolute
  · exact (Int.natAbs_neg _).trans (Int.natAbs_natCast absolute)

theorem withSign_natAbs (value : Int) : withSign (value < 0) value.natAbs = value := by
  unfold withSign
  simp only [decide_eq_true_eq]
  split <;> omega

theorem withSign_mul (negative : Bool) (absolute factor : Nat) :
    withSign negative absolute * factor = withSign negative (absolute * factor) := by
  cases negative
  · exact (Int.natCast_mul absolute factor).symm
  · exact (Int.neg_mul _ _).trans (congrArg Neg.neg (Int.natCast_mul absolute factor).symm)

theorem withSign_natAbs_of_mul {negative : Bool} {value : Int} {factor : Nat}
    (positive : 0 < factor)
    (same : withSign negative (value.natAbs * factor) = value * factor) :
    withSign negative value.natAbs = value := by
  rw [← withSign_mul] at same
  exact Int.eq_of_mul_eq_mul_right (Int.natCast_ne_zero.mpr positive.ne') same

/-- Among numbers that are no nearer than zero is, the sign does not make one nearer. -/
theorem withSign_farther (negative negative' : Bool) {origin near far : Nat}
    (nearer : Nat.dist origin near ≤ Nat.dist origin far) (least : Nat.dist origin near ≤ origin) :
    (withSign negative origin - withSign negative near).natAbs ≤
        (withSign negative origin - withSign negative' far).natAbs ∧
      ((withSign negative origin - withSign negative near).natAbs =
          (withSign negative origin - withSign negative' far).natAbs →
        Nat.dist origin near = Nat.dist origin far ∧ (negative = negative' ∨ far = 0)) := by
  unfold Nat.dist at nearer least ⊢
  unfold withSign
  cases negative <;> cases negative' <;>
    simp only [if_true, if_false, Bool.false_eq_true, reduceCtorEq, false_or, true_or, and_true] <;>
    omega

/-- The units of a finite number, with its sign. -/
def signedUnits (x : Binary64) : Int :=
  withSign x.isNegative x.units

/-- The rational number that a finite number stands for. -/
def toRat (x : Binary64) : ℚ :=
  x.signedUnits / unitsPerOne

/-- No finite number is nearer, and of two that are equally near this is the one with an even
significand. -/
structure NearestTo (exact : ℚ) (x : Binary64) : Prop where
  finite : x.isFinite = true
  nearest : ∀ y : Binary64, y.isFinite = true → |exact - x.toRat| ≤ |exact - y.toRat|
  even : ∀ y : Binary64, y.isFinite = true → |exact - x.toRat| = |exact - y.toRat| →
    y.toRat = x.toRat ∨ x.significand % 2 = 0 ∧ y.significand % 2 = 1

theorem normal_of_isFinite (finite : x.isFinite = true) : Normal x.significand x.exponent := by
  have below : x.magnitude < 2047 * 2 ^ 52 := of_decide_eq_true finite
  have power : Nat.pow 2 52 = 2 ^ 52 := rfl
  unfold significand Binary64.exponent
  rw [power]
  dsimp only
  constructor
  · split <;> omega
  · split <;> omega
  · omega

theorem Normal.below (normal : Normal significand exponent) :
    exponent * 2 ^ 52 + significand < infiniteMagnitude := by
  have := normal.lt
  have := normal.finite
  have infinite : infiniteMagnitude = 2047 * 2 ^ 52 := rfl
  omega

/-- A significand and an exponent of normal form are those of a number of either sign. -/
theorem Normal.ofMagnitude (normal : Normal significand exponent) (negative : Bool) :
    (ofMagnitude negative (exponent * 2 ^ 52 + significand)).isFinite = true ∧
      (ofMagnitude negative (exponent * 2 ^ 52 + significand)).isNegative = negative ∧
      (ofMagnitude negative (exponent * 2 ^ 52 + significand)).significand = significand ∧
      (ofMagnitude negative (exponent * 2 ^ 52 + significand)).exponent = exponent := by
  have fits : exponent * 2 ^ 52 + significand < Nat.pow 2 63 :=
    Nat.lt_trans normal.below (by decide)
  have same := magnitude_ofMagnitude negative fits
  have := normal.lt
  have := normal.full
  have power : Nat.pow 2 52 = 2 ^ 52 := rfl
  refine ⟨?_, isNegative_ofMagnitude negative fits, ?_, ?_⟩
  · rw [isFinite, same]
    exact decide_eq_true normal.below
  · rw [Binary64.significand, same, power]
    split <;> omega
  · rw [Binary64.exponent, same, power]
    omega

theorem signedUnits_ofMagnitude (normal : Normal significand exponent) (negative : Bool) :
    (Binary64.ofMagnitude negative (exponent * 2 ^ 52 + significand)).signedUnits =
      withSign negative (significand * 2 ^ exponent) := by
  obtain ⟨_, sign, digits, power⟩ := normal.ofMagnitude negative
  rw [signedUnits, units, sign, digits, power]
  rfl

/-- A multiple lies a whole step beyond the two around a number, or it is one of them. -/
theorem multiple_cases (low other step : Nat) :
    other * step + step ≤ low * step ∨ other = low ∨ other = low + 1 ∨
      low * step + 2 * step ≤ other * step := by
  rcases Nat.lt_or_ge other low with below | above
  · have := Nat.mul_le_mul_right step below
    rw [Nat.succ_mul] at this
    exact .inl this
  · rcases Nat.lt_or_ge (low + 1) other with beyond | within
    · have := Nat.mul_le_mul_right step beyond
      rw [Nat.succ_mul, Nat.succ_mul] at this
      omega
    · omega

/-- No multiple is nearer than the rounded one, and of two that are equally near it is the one with
an even factor. -/
theorem nearest_multiple (numerator : Nat) (positive : 0 < denominator) (other : Nat) :
    Nat.dist numerator (nearest numerator denominator * denominator) ≤
        Nat.dist numerator (other * denominator) ∧
      (Nat.dist numerator (nearest numerator denominator * denominator) =
          Nat.dist numerator (other * denominator) →
        other = nearest numerator denominator ∨
          nearest numerator denominator % 2 = 0 ∧ other % 2 = 1) := by
  have sum := Nat.div_add_mod' numerator denominator
  have remainder := Nat.mod_lt numerator positive
  have next : (numerator / denominator + 1) * denominator =
      numerator / denominator * denominator + denominator := Nat.succ_mul _ _
  unfold nearest Nat.dist
  dsimp only
  split
  · rename_i up
    rcases multiple_cases (numerator / denominator) other denominator with h | rfl | rfl | h <;>
      omega
  · rename_i down
    rcases multiple_cases (numerator / denominator) other denominator with h | rfl | rfl | h <;>
      omega

/-- Counted in places of the ratio, a number is whole, or it lies below all the ratio's digits. -/
theorem Normal.place_cases (normal : Normal significand exponent) (scale : Nat) :
    (∃ whole, significand * 2 ^ exponent = whole * 2 ^ scale ∧
        (whole % 2 = 1 → significand % 2 = 1)) ∨
      0 < scale ∧ significand * 2 ^ exponent < 2 ^ 52 * 2 ^ scale := by
  rcases Nat.lt_or_ge exponent scale with finer | coarser
  · right
    refine ⟨Nat.zero_lt_of_lt finer, ?_⟩
    calc significand * 2 ^ exponent
        < 2 ^ 53 * 2 ^ exponent := Nat.mul_lt_mul_of_pos_right normal.lt (Nat.two_pow_pos _)
      _ = 2 ^ 52 * 2 ^ (exponent + 1) := by rw [Nat.pow_succ' (n := exponent)]; omega
      _ ≤ 2 ^ 52 * 2 ^ scale := Nat.mul_le_mul_left _ (Nat.pow_le_pow_right (by decide) finer)
  · left
    obtain ⟨extra, rfl⟩ := Nat.exists_eq_add_of_le coarser
    refine ⟨significand * 2 ^ extra, by rw [Nat.pow_add, Nat.mul_assoc, Nat.mul_comm (2 ^ extra)],
      ?_⟩
    intro odd
    rcases Nat.mod_two_eq_zero_or_one significand with even | odd'
    · rw [Nat.mul_mod, even, Nat.zero_mul] at odd
      contradiction
    · exact odd'

/-- No number is nearer to a ratio than its rounded places, and of two that are equally near the
other one has an odd significand. -/
theorem Normal.farther (normal : Normal significand exponent) (numerator : Nat)
    (positive : 0 < denominator) :
    Nat.dist (numerator * unitsPerOne)
          (places numerator denominator * 2 ^ scale numerator denominator * denominator) ≤
        Nat.dist (numerator * unitsPerOne) (significand * 2 ^ exponent * denominator) ∧
      (Nat.dist (numerator * unitsPerOne)
            (places numerator denominator * 2 ^ scale numerator denominator * denominator) =
          Nat.dist (numerator * unitsPerOne) (significand * 2 ^ exponent * denominator) →
        significand * 2 ^ exponent =
            places numerator denominator * 2 ^ scale numerator denominator ∨
          places numerator denominator % 2 = 0 ∧ significand % 2 = 1) := by
  have step := Nat.mul_pos positive (Nat.two_pow_pos (scale numerator denominator))
  have inSteps (count : Nat) : count * 2 ^ scale numerator denominator * denominator =
      count * (denominator * 2 ^ scale numerator denominator) := by
    rw [Nat.mul_assoc, Nat.mul_comm denominator]
  have multiple := nearest_multiple (numerator * unitsPerOne) step
  rw [← places] at multiple
  rw [inSteps]
  rcases normal.place_cases (scale numerator denominator) with
    ⟨whole, same, parity⟩ | ⟨scaled, less⟩
  · rw [same, inSteps]
    refine ⟨(multiple whole).1, fun tie => ?_⟩
    rcases (multiple whole).2 tie with rounded | ⟨even, odd⟩
    · exact .inl (congrArg (· * _) rounded)
    · exact .inr ⟨even, parity odd⟩
  · -- The first place is no nearer than the rounded ones, and it lies beyond the number.
    have first := (multiple (2 ^ 52)).1
    have reached := le_scaled positive scaled
    have below : significand * 2 ^ exponent * denominator <
        2 ^ 52 * (denominator * 2 ^ scale numerator denominator) := by
      rw [← inSteps]
      exact Nat.mul_lt_mul_of_pos_right less positive
    unfold Nat.dist at first ⊢
    constructor <;> omega

/-- A ratio that rounds to no infinity has a significand and an exponent of normal form. -/
theorem exists_normal_places
    (finite : roundedMagnitude numerator denominator < infiniteMagnitude) :
    ∃ significand exponent, Normal significand exponent ∧
      roundedMagnitude numerator denominator = exponent * 2 ^ 52 + significand ∧
      significand * 2 ^ exponent =
        places numerator denominator * 2 ^ scale numerator denominator ∧
      significand % 2 = places numerator denominator % 2 := by
  have infinite : infiniteMagnitude = 2047 * 2 ^ 52 := rfl
  rw [roundedMagnitude_eq] at finite ⊢
  have atLeast : 0 < scale numerator denominator → 2 ^ 52 ≤ places numerator denominator :=
    le_places
  rcases Nat.lt_or_eq_of_le (places_le numerator denominator) with less | carried
  · refine ⟨_, _, ⟨less, ?_, ?_⟩, ?_, rfl, rfl⟩
    · omega
    · omega
    · omega
  · -- The places were rounded up to the next power of two.
    refine ⟨2 ^ 52, scale numerator denominator + 1, ⟨by decide, .inl (Nat.le_refl _), ?_⟩, ?_, ?_,
      ?_⟩
    · omega
    · omega
    · rw [carried, Nat.pow_succ']
      omega
    · rw [carried]
      rfl

theorem isFinite_ofRatio (negative : Bool) :
    (ofRatio negative numerator denominator).isFinite = true ↔
      roundedMagnitude numerator denominator < infiniteMagnitude := by
  have fits : roundedMagnitude numerator denominator < Nat.pow 2 63 :=
    Nat.lt_of_le_of_lt (roundedMagnitude_le _ _) (by decide)
  rw [ofRatio, isFinite, magnitude_ofMagnitude negative fits, decide_eq_true_eq]

theorem unitsPerOne_cast_pos : (0 : ℚ) < unitsPerOne :=
  Nat.cast_pos.mpr unitsPerOne_pos

theorem abs_sub_toRat (positive : 0 < denominator) (value : Int) (x : Binary64) :
    |(value / denominator : ℚ) - x.toRat| =
      (value * unitsPerOne - x.signedUnits * denominator).natAbs /
        ((denominator * unitsPerOne : Nat) : ℚ) := by
  have below : (0 : ℚ) < denominator := Nat.cast_pos.mpr positive
  have units := unitsPerOne_cast_pos
  have common : (value / denominator : ℚ) - x.toRat =
      ((value * unitsPerOne - x.signedUnits * denominator : Int) : ℚ) /
        ((denominator * unitsPerOne : Nat) : ℚ) := by
    rw [toRat, div_sub_div _ _ below.ne' units.ne']
    push_cast
    rw [mul_comm (denominator : ℚ)]
  rw [common, abs_div, Nat.abs_cast, Nat.cast_natAbs, Int.cast_abs]

/-- In units and parts of the denominator, no number is nearer to a ratio than the one that it is
rounded to, and another one that is equally near has an odd significand. -/
theorem ofRatio_farther (negative : Bool) (positive : 0 < denominator)
    (finite : roundedMagnitude numerator denominator < infiniteMagnitude)
    (other : y.isFinite = true) :
    (withSign negative numerator * unitsPerOne -
          (ofRatio negative numerator denominator).signedUnits * denominator).natAbs ≤
        (withSign negative numerator * unitsPerOne - y.signedUnits * denominator).natAbs ∧
      ((withSign negative numerator * unitsPerOne -
            (ofRatio negative numerator denominator).signedUnits * denominator).natAbs =
          (withSign negative numerator * unitsPerOne - y.signedUnits * denominator).natAbs →
        y.signedUnits = (ofRatio negative numerator denominator).signedUnits ∨
          (ofRatio negative numerator denominator).significand % 2 = 0 ∧
            y.significand % 2 = 1) := by
  obtain ⟨significand, exponent, normal, rounded, same, parity⟩ := exists_normal_places finite
  obtain ⟨_, _, digits, _⟩ := normal.ofMagnitude negative
  have farther := (normal_of_isFinite other).farther numerator positive
  have least := (normal_zero.farther numerator positive).1
  rw [Nat.zero_mul, Nat.zero_mul, Nat.dist_zero_right] at least
  have unsigned : y.signedUnits = withSign y.isNegative (y.significand * 2 ^ y.exponent) := rfl
  rw [ofRatio, rounded, signedUnits_ofMagnitude normal, same, digits, parity, unsigned,
    withSign_mul, withSign_mul, withSign_mul]
  have signs := withSign_farther negative y.isNegative farther.1 least
  refine ⟨signs.1, fun tie => ?_⟩
  obtain ⟨equal, sides⟩ := signs.2 tie
  refine (farther.2 equal).imp_left fun alike => ?_
  rcases sides with rfl | nothing
  · rw [alike]
  · have nothing := (Nat.mul_eq_zero.mp nothing).resolve_right positive.ne'
    rw [← alike, nothing, withSign_zero, withSign_zero]

/-- A ratio is rounded to the number nearest to it. -/
theorem nearestTo_ofRatio (negative : Bool) (positive : 0 < denominator)
    (finite : roundedMagnitude numerator denominator < infiniteMagnitude) :
    NearestTo (withSign negative numerator / denominator)
      (ofRatio negative numerator denominator) := by
  have common : (0 : ℚ) < (denominator * unitsPerOne : Nat) :=
    Nat.cast_pos.mpr (Nat.mul_pos positive unitsPerOne_pos)
  refine ⟨(isFinite_ofRatio negative).mpr finite, fun y other => ?_, fun y other => ?_⟩
  · rw [abs_sub_toRat positive, abs_sub_toRat positive, div_le_div_iff_of_pos_right common]
    exact Nat.cast_le.mpr (ofRatio_farther negative positive finite other).1
  · rw [abs_sub_toRat positive, abs_sub_toRat positive, div_left_inj' common.ne']
    intro tie
    have farther := (ofRatio_farther negative positive finite other).2 (Nat.cast_injective tie)
    exact farther.imp_left (congrArg fun units : Int => (units : ℚ) / unitsPerOne)

/-- Two numbers that are nearest to the same one are equal. -/
theorem NearestTo.toRat_eq (nearest : NearestTo exact x) (nearest' : NearestTo exact y) :
    x.toRat = y.toRat := by
  have tie := le_antisymm (nearest.nearest y nearest'.finite) (nearest'.nearest x nearest.finite)
  rcases nearest.even y nearest'.finite tie with same | ⟨even, odd⟩
  · exact same.symm
  · rcases nearest'.even x nearest.finite tie.symm with same | ⟨even', odd'⟩
    · exact same
    · omega

/-- A number is the nearest one to itself. -/
theorem nearestTo_toRat (finite : x.isFinite = true) : NearestTo x.toRat x := by
  refine ⟨finite, fun y _ => ?_, fun y _ tie => .inl ?_⟩
  · rw [sub_self, abs_zero]
    exact abs_nonneg _
  · rw [sub_self, abs_zero, eq_comm, abs_eq_zero, sub_eq_zero] at tie
    exact tie.symm

/-- A number is not passed over in rounding. -/
theorem NearestTo.le_toRat (nearest : NearestTo exact x) (finite : y.isFinite = true)
    (le : y.toRat ≤ exact) : y.toRat ≤ x.toRat := by
  have closer := nearest.nearest y finite
  rw [abs_of_nonneg (sub_nonneg.mpr le)] at closer
  have := (abs_le.mp closer).2
  linarith

theorem NearestTo.toRat_le (nearest : NearestTo exact x) (finite : y.isFinite = true)
    (le : exact ≤ y.toRat) : x.toRat ≤ y.toRat := by
  have closer := nearest.nearest y finite
  rw [abs_of_nonpos (sub_nonpos.mpr le)] at closer
  have := (abs_le.mp closer).1
  linarith

theorem toRat_eq_intCast_iff {value : Int} :
    x.toRat = value ↔ x.signedUnits = value * unitsPerOne := by
  rw [toRat, div_eq_iff unitsPerOne_cast_pos.ne']
  exact_mod_cast Iff.rfl

/-- A finite number is an integer if the unit divides it. -/
theorem toInt?_eq_some_iff {value : Int} :
    x.toInt? = some value ↔ x.isFinite = true ∧ x.toRat = value := by
  have whole : x.toInt? = if x.isFinite && x.units % unitsPerOne == 0 then
      some (withSign x.isNegative (x.units / unitsPerOne)) else none := rfl
  rw [whole, Option.ite_none_right_eq_some, Bool.and_eq_true, beq_iff_eq, Option.some.injEq,
    toRat_eq_intCast_iff, and_assoc]
  refine and_congr_right fun _ => ?_
  constructor
  · rintro ⟨divides, rfl⟩
    rw [signedUnits, withSign_mul, Nat.div_mul_cancel (Nat.dvd_of_mod_eq_zero divides)]
  · intro same
    have absolute : x.units = value.natAbs * unitsPerOne := by
      have sizes := congrArg Int.natAbs same
      rwa [signedUnits, natAbs_withSign, Int.natAbs_mul, Int.natAbs_natCast] at sizes
    rw [signedUnits, absolute] at same
    rw [absolute, Nat.mul_div_cancel _ unitsPerOne_pos]
    exact ⟨Nat.mul_mod_left _ _, withSign_natAbs_of_mul unitsPerOne_pos same⟩

/-- An integer whose absolute value has a significand and an exponent is a number. -/
theorem Normal.exists_toRat (normal : Normal significand exponent) (value : Int)
    (same : value.natAbs * unitsPerOne = significand * 2 ^ exponent) :
    ∃ x : Binary64, x.isFinite = true ∧ x.toRat = value := by
  refine ⟨_, (normal.ofMagnitude (value < 0)).1, toRat_eq_intCast_iff.mpr ?_⟩
  rw [signedUnits_ofMagnitude normal, ← same, ← withSign_mul, withSign_natAbs]

/-- The absolute value from which on integers are out of range. -/
theorem exists_normal_limit :
    ∃ significand exponent, Normal significand exponent ∧
      2 ^ 63 * unitsPerOne = significand * 2 ^ exponent := by
  obtain ⟨high, all⟩ : ∃ high, 0 + high = 1074 := ⟨1074, rfl⟩
  refine ⟨2 ^ 52, 11 + high, ⟨by decide, .inl (Nat.le_refl _), by omega⟩, ?_⟩
  have digits : 2 ^ 63 = 2 ^ 52 * 2 ^ 11 := rfl
  rw [unitsPerOne_eq all, digits, Nat.pow_add 2 11, Nat.pow_zero, Nat.one_mul, Nat.mul_assoc]

theorem roundedMagnitude_lt (positive : 0 < denominator)
    (below : numerator < 2 ^ 63 * denominator) :
    roundedMagnitude numerator denominator < infiniteMagnitude := by
  obtain ⟨significand, exponent, normal, same⟩ := exists_normal_limit
  have limit := normal.roundedMagnitude_eq Nat.one_pos (same.trans (Nat.mul_one _).symm)
  have le : numerator * 1 ≤ 2 ^ 63 * denominator := by omega
  exact Nat.lt_of_le_of_lt (roundedMagnitude_mono positive Nat.one_pos le) (limit ▸ normal.below)

/-- What is out of range is not rounded to an integer in range. -/
theorem NearestTo.limit_le {negative : Bool} {value : Int} (positive : 0 < denominator)
    (large : 2 ^ 63 * denominator ≤ numerator)
    (nearest : NearestTo (withSign negative numerator / denominator) x) (same : x.toRat = value) :
    2 ^ 63 ≤ value.natAbs := by
  obtain ⟨significand, exponent, normal, limit⟩ := exists_normal_limit
  obtain ⟨y, finite, bound⟩ := normal.exists_toRat (withSign negative (2 ^ 63))
    (by rw [natAbs_withSign, limit])
  have below : (0 : ℚ) < denominator := Nat.cast_pos.mpr positive
  have large : ((2 ^ 63 * denominator : Nat) : ℚ) ≤ numerator := Nat.cast_le.mpr large
  rw [Nat.cast_mul] at large
  cases negative with
  | false =>
      have reached : y.toRat ≤ withSign false numerator / denominator := by
        rw [bound, le_div_iff₀ below]
        exact large
      have le := nearest.le_toRat finite reached
      rw [bound, same] at le
      have limit : ((2 ^ 63 : Nat) : Int) ≤ value := Int.cast_le.mp le
      omega
  | true =>
      have reached : withSign true numerator / denominator ≤ y.toRat := by
        rw [bound, div_le_iff₀ below]
        simpa [withSign] using large
      have le := nearest.toRat_le finite reached
      rw [bound, same] at le
      have limit : value ≤ -((2 ^ 63 : Nat) : Int) := Int.cast_le.mp le
      omega

theorem two_mul_dist_nearest_le (numerator : Nat) (positive : 0 < denominator) :
    2 * Nat.dist numerator (nearest numerator denominator * denominator) ≤ denominator := by
  have sum := Nat.div_add_mod' numerator denominator
  have remainder := Nat.mod_lt numerator positive
  have next : (numerator / denominator + 1) * denominator =
      numerator / denominator * denominator + denominator := Nat.succ_mul _ _
  unfold nearest Nat.dist
  dsimp only
  split <;> omega

/-- With at most 53 binary digits in front and no more places than there are units, a ratio is
rounded to an integer only if it is this integer. -/
theorem eq_mul_of_places {whole : Nat} (positive : 0 < denominator) (few : numerator < 2 ^ 53)
    (coarse : denominator < 2 * unitsPerOne)
    (same : places numerator denominator * 2 ^ scale numerator denominator = whole * unitsPerOne) :
    numerator = whole * denominator := by
  have step := Nat.mul_pos positive (Nat.two_pow_pos (scale numerator denominator))
  have near := two_mul_dist_nearest_le (numerator * unitsPerOne) step
  rw [← places, Nat.mul_left_comm, same, Nat.mul_left_comm, ← Nat.mul_assoc, Nat.dist_mul_right,
    ← Nat.mul_assoc] at near
  refine Nat.eq_of_dist_eq_zero (Nat.eq_zero_of_not_pos fun apart => ?_)
  have units : 2 * unitsPerOne ≤ denominator * 2 ^ scale numerator denominator :=
    Nat.le_trans (Nat.mul_le_mul_right _ (Nat.le_mul_of_pos_right 2 apart)) near
  rcases Nat.eq_zero_or_pos (scale numerator denominator) with least | scaled
  · rw [least, Nat.pow_zero, Nat.mul_one] at units
    exact Nat.not_le.mpr coarse units
  · have reached := le_scaled positive scaled
    have bound := Nat.mul_lt_mul_of_pos_right few unitsPerOne_pos
    have digits : 2 ^ 53 = 2 ^ 52 * 2 := rfl
    rw [digits, Nat.mul_assoc] at bound
    have beyond := Nat.mul_le_mul_left (2 ^ 52) units
    exact Nat.lt_irrefl _ (Nat.lt_of_le_of_lt (Nat.le_trans beyond reached) bound)

/-- Few digits are rounded to an integer only if this is their number. -/
theorem NearestTo.eq_of_few {negative : Bool} {value : Int} (positive : 0 < denominator)
    (few : numerator < 2 ^ 53) (coarse : denominator < 2 * unitsPerOne)
    (nearest : NearestTo (withSign negative numerator / denominator) x) (same : x.toRat = value) :
    (withSign negative numerator / denominator : ℚ) = value := by
  have below : numerator < 2 ^ 63 * denominator := by omega
  have finite := roundedMagnitude_lt positive below
  have rounded : (ofRatio negative numerator denominator).toRat = value :=
    ((nearestTo_ofRatio negative positive finite).toRat_eq nearest).trans same
  obtain ⟨significand, exponent, normal, magnitude, places, _⟩ := exists_normal_places finite
  rw [toRat_eq_intCast_iff, ofRatio, magnitude, signedUnits_ofMagnitude normal, places] at rounded
  have absolute := congrArg Int.natAbs rounded
  rw [natAbs_withSign, Int.natAbs_mul, Int.natAbs_natCast] at absolute
  rw [absolute] at rounded
  rw [eq_mul_of_places positive few coarse absolute, ← withSign_mul,
    withSign_natAbs_of_mul unitsPerOne_pos rounded, div_eq_iff (Nat.cast_ne_zero.mpr positive.ne')]
  push_cast
  rfl

end DocumentGraph.Number.Binary64
