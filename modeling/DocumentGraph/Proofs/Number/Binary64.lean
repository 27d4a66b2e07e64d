import DocumentGraph.Number.Binary64

namespace DocumentGraph.Number.Binary64

/-! Which floating-point numbers are NaNs.

Rounding never makes one, so only a bit pattern that is one from the start has no order.
-/

variable {magnitude : Nat} {x y : Binary64}

theorem magnitude_ofMagnitude (negative : Bool) (fits : magnitude < Nat.pow 2 63) :
    (ofMagnitude negative magnitude).magnitude = magnitude := by
  have sign : Nat.pow 2 63 = 9223372036854775808 := rfl
  unfold ofMagnitude Binary64.magnitude
  rw [UInt64.toNat_ofNat', sign]
  split <;> omega

theorem roundedMagnitude_le (numerator denominator : Nat) :
    roundedMagnitude numerator denominator ≤ infiniteMagnitude :=
  Nat.min_le_right _ _

theorem isNaN_ofRatio (negative : Bool) (numerator denominator : Nat) :
    (ofRatio negative numerator denominator).isNaN = false := by
  have atMost := roundedMagnitude_le numerator denominator
  have fits : infiniteMagnitude < Nat.pow 2 63 := by decide
  rw [ofRatio, isNaN, magnitude_ofMagnitude negative (Nat.lt_of_le_of_lt atMost fits)]
  exact decide_eq_false (Nat.not_lt.mpr atMost)

theorem isNaN_ofInt (value : Int) : (ofInt value).isNaN = false :=
  isNaN_ofRatio _ _ _

theorem compare?_eq_none_iff : x.compare? y = none ↔ x.isNaN = true ∨ y.isNaN = true := by
  unfold compare?
  cases x.isNaN <;> cases y.isNaN <;> simp

end DocumentGraph.Number.Binary64
