import DocumentGraph.Proofs.Number.Binary64
import Mathlib.Algebra.Group.Nat.Defs

namespace DocumentGraph.Number.Binary64

/-! What rounding keeps.

Rounding scales a ratio to a quotient of 53 binary digits, or to fewer at the lower end, and takes
the whole number nearest to it.  So it keeps the order of ratios, and it keeps apart the whole
numbers up to `2 ^ 53`.  Integers that are different and round to the same number are therefore
both `2 ^ 53` or more in absolute value.
-/

variable {numerator denominator numerator' denominator' : Nat}

/-- The whole number nearest to a ratio and, of two that are equally near, the even one. -/
def nearest (numerator denominator : Nat) : Nat :=
  let low := numerator / denominator
  let twice := 2 * (numerator % denominator)
  if denominator < twice ∨ twice = denominator ∧ low % 2 = 1 then low + 1 else low

theorem le_nearest (numerator denominator : Nat) :
    numerator / denominator ≤ nearest numerator denominator := by
  unfold nearest
  dsimp only
  split <;> omega

theorem nearest_le (numerator denominator : Nat) :
    nearest numerator denominator ≤ numerator / denominator + 1 := by
  unfold nearest
  dsimp only
  split <;> omega

theorem nearest_mul (positive : 0 < denominator) (whole : Nat) :
    nearest (whole * denominator) denominator = whole := by
  have low : whole * denominator / denominator = whole := Nat.mul_div_cancel whole positive
  have nothing : whole * denominator % denominator = 0 := Nat.mul_mod_left whole denominator
  unfold nearest
  simp only [low, nothing]
  exact if_neg (by omega)

theorem cross_mul (factor : Nat) (le : numerator * denominator' ≤ numerator' * denominator) :
    numerator * factor * denominator' ≤ numerator' * factor * denominator := by
  rw [Nat.mul_right_comm, Nat.mul_right_comm numerator']
  exact Nat.mul_le_mul_right factor le

theorem div_mono (positive : 0 < denominator) (positive' : 0 < denominator')
    (le : numerator * denominator' ≤ numerator' * denominator) :
    numerator / denominator ≤ numerator' / denominator' := by
  rw [Nat.le_div_iff_mul_le positive']
  apply Nat.le_of_mul_le_mul_right _ positive
  calc numerator / denominator * denominator' * denominator
      = numerator / denominator * denominator * denominator' := Nat.mul_right_comm _ _ _
    _ ≤ numerator * denominator' := Nat.mul_le_mul_right _ (Nat.div_mul_le_self _ _)
    _ ≤ numerator' * denominator := le

/-- A greater ratio never rounds to a smaller whole number. -/
theorem nearest_mono (positive : 0 < denominator) (positive' : 0 < denominator')
    (le : numerator * denominator' ≤ numerator' * denominator) :
    nearest numerator denominator ≤ nearest numerator' denominator' := by
  rcases Nat.lt_or_eq_of_le (div_mono positive positive' le) with less | same
  · exact Nat.le_trans (nearest_le _ _) (Nat.le_trans less (le_nearest _ _))
  · -- The quotients agree, so the remainders decide on both sides.
    have remainders : numerator % denominator * denominator' ≤
        numerator' % denominator' * denominator := by
      rw [← Nat.div_add_mod numerator denominator, ← Nat.div_add_mod numerator' denominator', same,
        Nat.add_mul, Nat.add_mul, Nat.mul_right_comm, Nat.mul_comm denominator denominator',
        Nat.mul_right_comm denominator'] at le
      exact Nat.le_of_add_le_add_left le
    have doubled : 2 * (numerator % denominator) * denominator' ≤
        2 * (numerator' % denominator') * denominator := by
      rw [Nat.mul_assoc, Nat.mul_assoc]
      exact Nat.mul_le_mul_left 2 remainders
    have atLeast (above : denominator ≤ 2 * (numerator % denominator)) :
        denominator' ≤ 2 * (numerator' % denominator') := by
      apply Nat.le_of_mul_le_mul_left _ positive
      rw [Nat.mul_comm denominator (2 * _)]
      exact Nat.le_trans (Nat.mul_le_mul_right denominator' above) doubled
    have more (above : denominator < 2 * (numerator % denominator)) :
        denominator' < 2 * (numerator' % denominator') := by
      apply Nat.lt_of_mul_lt_mul_left (a := denominator)
      rw [Nat.mul_comm denominator (2 * _)]
      exact Nat.lt_of_lt_of_le (Nat.mul_lt_mul_of_pos_right above positive') doubled
    unfold nearest
    dsimp only
    rw [same]
    split
    · split <;> omega
    · split <;> omega

/-- The power of two of the last place, counted in units. -/
def scale (numerator denominator : Nat) : Nat :=
  (numerator * unitsPerOne / denominator).log2 - 52

/-- A ratio in places of its scale, before it is rounded. -/
def quotient (numerator denominator : Nat) : Nat :=
  numerator * unitsPerOne / (denominator * 2 ^ scale numerator denominator)

/-- A ratio in places of its scale, rounded. -/
def places (numerator denominator : Nat) : Nat :=
  nearest (numerator * unitsPerOne) (denominator * 2 ^ scale numerator denominator)

theorem roundedMagnitude_eq (numerator denominator : Nat) :
    roundedMagnitude numerator denominator =
      min (scale numerator denominator * 2 ^ 52 + places numerator denominator)
        infiniteMagnitude :=
  rfl

theorem quotient_eq (numerator denominator : Nat) :
    quotient numerator denominator =
      numerator * unitsPerOne / denominator / 2 ^ scale numerator denominator :=
  (Nat.div_div_eq_div_mul _ _ _).symm

theorem quotient_lt (numerator denominator : Nat) : quotient numerator denominator < 2 ^ 53 := by
  rw [quotient_eq, Nat.div_lt_iff_lt_mul (Nat.two_pow_pos _), ← Nat.pow_add]
  apply Nat.lt_of_lt_of_le Nat.lt_log2_self
  apply Nat.pow_le_pow_right (by decide)
  unfold scale
  omega

theorem le_quotient (scaled : 0 < scale numerator denominator) :
    2 ^ 52 ≤ quotient numerator denominator := by
  have digits : 52 + scale numerator denominator =
      (numerator * unitsPerOne / denominator).log2 := by
    unfold scale at scaled ⊢
    omega
  have nonzero : numerator * unitsPerOne / denominator ≠ 0 := by
    intro zero
    rw [zero, Nat.log2_zero] at digits
    omega
  rw [quotient_eq, Nat.le_div_iff_mul_le (Nat.two_pow_pos _), ← Nat.pow_add, digits]
  exact Nat.log2_self_le nonzero

/-- Scaled to places, a ratio has all its digits. -/
theorem le_scaled (positive : 0 < denominator) (scaled : 0 < scale numerator denominator) :
    2 ^ 52 * (denominator * 2 ^ scale numerator denominator) ≤ numerator * unitsPerOne := by
  have step := Nat.mul_pos positive (Nat.two_pow_pos (scale numerator denominator))
  exact (Nat.le_div_iff_mul_le step).mp (le_quotient scaled)

theorem places_le (numerator denominator : Nat) : places numerator denominator ≤ 2 ^ 53 :=
  Nat.le_trans (nearest_le _ _) (quotient_lt numerator denominator)

theorem le_places (scaled : 0 < scale numerator denominator) :
    2 ^ 52 ≤ places numerator denominator :=
  Nat.le_trans (le_quotient scaled) (le_nearest _ _)

theorem scale_mono (positive : 0 < denominator) (positive' : 0 < denominator')
    (le : numerator * denominator' ≤ numerator' * denominator) :
    scale numerator denominator ≤ scale numerator' denominator' := by
  have quotients := div_mono positive positive' (cross_mul unitsPerOne le)
  unfold scale
  by_cases zero : numerator * unitsPerOne / denominator = 0
  · rw [zero, Nat.log2_zero]
    omega
  · have logs : (numerator * unitsPerOne / denominator).log2 ≤
        (numerator' * unitsPerOne / denominator').log2 := by
      have reached := Nat.le_trans (Nat.log2_self_le zero) quotients
      exact (Nat.le_log2 (Nat.ne_of_gt (Nat.lt_of_lt_of_le (Nat.two_pow_pos _) reached))).mpr reached
    omega

/-- A greater ratio never rounds to a smaller number. -/
theorem roundedMagnitude_mono (positive : 0 < denominator) (positive' : 0 < denominator')
    (le : numerator * denominator' ≤ numerator' * denominator) :
    roundedMagnitude numerator denominator ≤ roundedMagnitude numerator' denominator' := by
  have unbounded : scale numerator denominator * 2 ^ 52 + places numerator denominator ≤
      scale numerator' denominator' * 2 ^ 52 + places numerator' denominator' := by
    rcases Nat.lt_or_eq_of_le (scale_mono positive positive' le) with less | same
    · have atMost := places_le numerator denominator
      have atLeast := le_places (Nat.zero_lt_of_lt less)
      omega
    · apply Nat.add_le_add (Nat.le_of_eq (congrArg (· * 2 ^ 52) same))
      unfold places
      rw [same]
      apply nearest_mono (Nat.mul_pos positive (Nat.two_pow_pos _))
        (Nat.mul_pos positive' (Nat.two_pow_pos _))
      rw [← Nat.mul_assoc, ← Nat.mul_assoc]
      exact Nat.mul_le_mul_right _ (cross_mul unitsPerOne le)
  rw [roundedMagnitude_eq, roundedMagnitude_eq]
  omega

/-- The one form of a finite number: 53 binary digits, or fewer with the least exponent. -/
structure Normal (significand exponent : Nat) : Prop where
  lt : significand < 2 ^ 53
  full : 2 ^ 52 ≤ significand ∨ exponent = 0
  finite : exponent ≤ 2045

variable {significand exponent significand' exponent' value other : Nat}

theorem normal_zero : Normal 0 0 :=
  ⟨by decide, .inr rfl, by decide⟩

theorem Normal.inj (normal : Normal significand exponent) (normal' : Normal significand' exponent')
    (same : exponent * 2 ^ 52 + significand = exponent' * 2 ^ 52 + significand') :
    significand = significand' ∧ exponent = exponent' := by
  have := normal.lt
  have := normal'.lt
  have := normal.full
  have := normal'.full
  omega

theorem Normal.log2_eq (normal : Normal significand exponent) :
    (significand * 2 ^ exponent).log2 - 52 = exponent := by
  rcases normal.full with full | least
  · have nonzero : significand * 2 ^ exponent ≠ 0 :=
      Nat.mul_ne_zero (by omega) (Nat.ne_of_gt (Nat.two_pow_pos _))
    have digits : (significand * 2 ^ exponent).log2 = 52 + exponent := by
      rw [Nat.log2_eq_iff nonzero, Nat.pow_succ', Nat.pow_add, ← Nat.mul_assoc]
      exact ⟨Nat.mul_le_mul_right _ full,
        Nat.mul_lt_mul_of_pos_right normal.lt (Nat.two_pow_pos _)⟩
    omega
  · subst least
    rw [Nat.pow_zero, Nat.mul_one]
    by_cases zero : significand = 0
    · rw [zero, Nat.log2_zero]
    · have few := (Nat.log2_lt zero).mpr normal.lt
      omega

/-- A ratio that is a number already stays as it is. -/
theorem Normal.roundedMagnitude_eq (normal : Normal significand exponent)
    (positive : 0 < denominator)
    (exact : numerator * unitsPerOne = significand * 2 ^ exponent * denominator) :
    roundedMagnitude numerator denominator = exponent * 2 ^ 52 + significand := by
  have scaled : scale numerator denominator = exponent := by
    rw [scale, exact, Nat.mul_div_cancel _ positive, normal.log2_eq]
  have kept : places numerator denominator = significand := by
    rw [places, scaled, exact, Nat.mul_assoc, Nat.mul_comm (2 ^ exponent)]
    exact nearest_mul (Nat.mul_pos positive (Nat.two_pow_pos _)) significand
  have below : exponent * 2 ^ 52 + significand ≤ infiniteMagnitude := by
    have := normal.lt
    have := normal.finite
    have infinite : infiniteMagnitude = 2047 * 2 ^ 52 := rfl
    omega
  rw [Binary64.roundedMagnitude_eq, scaled, kept, Nat.min_eq_left below]

theorem unitsPerOne_eq {low high : Nat} (all : low + high = 1074) :
    unitsPerOne = 2 ^ low * 2 ^ high := by
  obtain ⟨total, sum, one⟩ : ∃ total, low + high = total ∧ unitsPerOne = 2 ^ total :=
    ⟨1074, all, by decide +kernel⟩
  rw [one, ← sum, Nat.pow_add]

theorem unitsPerOne_pos : 0 < unitsPerOne := by
  decide +kernel

/-- A whole number of at most 53 binary digits is a number. -/
theorem exists_normal (small : value ≤ 2 ^ 53) :
    ∃ significand exponent, Normal significand exponent ∧
      value * unitsPerOne = significand * 2 ^ exponent := by
  rcases Nat.lt_or_eq_of_le small with less | last
  · by_cases zero : value = 0
    · subst zero
      exact ⟨0, 0, normal_zero, by rw [Nat.zero_mul, Nat.zero_mul]⟩
    · have few : value.log2 < 53 := (Nat.log2_lt zero).mpr less
      have filled : 2 ^ value.log2 * 2 ^ (52 - value.log2) = 2 ^ 52 := by
        rw [← Nat.pow_add, Nat.add_sub_cancel' (by omega)]
      refine ⟨value * 2 ^ (52 - value.log2), value.log2 + 1022, ⟨?_, .inl ?_, by omega⟩, ?_⟩
      · have below := Nat.mul_lt_mul_of_pos_right (Nat.lt_log2_self (n := value))
          (Nat.two_pow_pos (52 - value.log2))
        rw [Nat.pow_succ', Nat.mul_assoc, filled] at below
        exact below
      · rw [← filled]
        exact Nat.mul_le_mul_right _ (Nat.log2_self_le zero)
      · have all : 52 - value.log2 + (value.log2 + 1022) = 1074 := by omega
        rw [unitsPerOne_eq all, Nat.mul_assoc]
  · subst last
    obtain ⟨low, all⟩ : ∃ low, low + 52 = 1074 := ⟨1022, rfl⟩
    refine ⟨2 ^ 52, 53 + low, ⟨by decide, .inl (Nat.le_refl _), by omega⟩, ?_⟩
    rw [unitsPerOne_eq all, Nat.pow_add 2 53, Nat.mul_comm (2 ^ low), Nat.mul_left_comm]

theorem eq_of_roundedMagnitude (small : value ≤ 2 ^ 53) (small' : other ≤ 2 ^ 53)
    (same : roundedMagnitude value 1 = roundedMagnitude other 1) : value = other := by
  obtain ⟨significand, exponent, normal, exact⟩ := exists_normal small
  obtain ⟨significand', exponent', normal', exact'⟩ := exists_normal small'
  rw [normal.roundedMagnitude_eq Nat.one_pos (by rw [exact, Nat.mul_one]),
    normal'.roundedMagnitude_eq Nat.one_pos (by rw [exact', Nat.mul_one])] at same
  obtain ⟨rfl, rfl⟩ := normal.inj normal' same
  exact Nat.eq_of_mul_eq_mul_right unitsPerOne_pos (exact.trans exact'.symm)

theorem roundedMagnitude_le_of_le (le : value ≤ other) :
    roundedMagnitude value 1 ≤ roundedMagnitude other 1 :=
  roundedMagnitude_mono Nat.one_pos Nat.one_pos (Nat.mul_le_mul_right 1 le)

theorem roundedMagnitude_zero : roundedMagnitude 0 1 = 0 :=
  normal_zero.roundedMagnitude_eq Nat.one_pos (by simp only [Nat.zero_mul])

/-- Below `2 ^ 53` no other whole number rounds alike. -/
theorem roundedMagnitude_inj (small : value < 2 ^ 53)
    (same : roundedMagnitude value 1 = roundedMagnitude other 1) : value = other := by
  by_cases small' : other ≤ 2 ^ 53
  · exact eq_of_roundedMagnitude (Nat.le_of_lt small) small' same
  · -- The last whole number with a form of its own lies between the two.
    have lower := roundedMagnitude_le_of_le (Nat.le_of_lt small)
    have upper := roundedMagnitude_le_of_le (Nat.le_of_not_le small')
    have between := eq_of_roundedMagnitude (Nat.le_of_lt small) (Nat.le_refl _)
      (Nat.le_antisymm lower (Nat.le_trans upper (Nat.le_of_eq same.symm)))
    omega

variable {left right : Int}

theorem isNegative_ofMagnitude (negative : Bool) {magnitude : Nat}
    (fits : magnitude < Nat.pow 2 63) : (ofMagnitude negative magnitude).isNegative = negative := by
  have sign : Nat.pow 2 63 = 9223372036854775808 := rfl
  unfold ofMagnitude isNegative
  rw [UInt64.toNat_ofNat', sign]
  rw [sign] at fits
  cases negative <;> simp <;> omega

theorem orderKey_ofInt (value : Int) :
    (ofInt value).orderKey =
      if value < 0 then -(roundedMagnitude value.natAbs 1 : Int)
      else roundedMagnitude value.natAbs 1 := by
  have fits : roundedMagnitude value.natAbs 1 < Nat.pow 2 63 :=
    Nat.lt_of_le_of_lt (roundedMagnitude_le _ _) (by decide)
  rw [orderKey, ofInt, ofRatio, isNegative_ofMagnitude _ fits, magnitude_ofMagnitude _ fits]
  simp only [decide_eq_true_eq]

/-- Rounding keeps the order of integers. -/
theorem orderKey_ofInt_mono (le : left ≤ right) :
    (ofInt left).orderKey ≤ (ofInt right).orderKey := by
  rw [orderKey_ofInt, orderKey_ofInt]
  split
  · split
    · have := roundedMagnitude_le_of_le (show right.natAbs ≤ left.natAbs by omega)
      omega
    · omega
  · split
    · omega
    · have := roundedMagnitude_le_of_le (show left.natAbs ≤ right.natAbs by omega)
      omega

theorem eq_of_orderKey_ofInt (small : left.natAbs < 2 ^ 53)
    (same : (ofInt left).orderKey = (ofInt right).orderKey) : left = right := by
  rw [orderKey_ofInt, orderKey_ofInt] at same
  have magnitudes : roundedMagnitude left.natAbs 1 = roundedMagnitude right.natAbs 1 := by
    split at same <;> split at same <;> omega
  have absolute := roundedMagnitude_inj small magnitudes
  rw [← absolute] at same
  have zero (none : roundedMagnitude left.natAbs 1 = 0) : left.natAbs = 0 :=
    roundedMagnitude_inj small (none.trans roundedMagnitude_zero.symm)
  -- Opposite numbers round alike only if they are both zero.
  split at same <;> split at same <;> omega

end DocumentGraph.Number.Binary64
