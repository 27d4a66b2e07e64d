namespace DocumentGraph.Number

/-! Binary floating point in exact arithmetic.

The bits below the sign, read as a number, order the absolute values; that number is the
magnitude.  A finite number is `significand * 2 ^ exponent` units in absolute value, a unit
being the least positive number, `2 ^ -1074`.  Rounding takes the nearest number and, of two
that are equally near, the one with an even significand.
-/

/-- A floating-point number of 64 bits, given by its bit pattern.  Equality of patterns
tells the two zeros apart and holds between a NaN and itself. -/
structure Binary64 where
  bits : UInt64
deriving DecidableEq, Repr

namespace Binary64

def isNegative (x : Binary64) : Bool :=
  Nat.pow 2 63 ≤ x.bits.toNat

def magnitude (x : Binary64) : Nat :=
  x.bits.toNat % Nat.pow 2 63

def infiniteMagnitude : Nat :=
  2047 * Nat.pow 2 52

def ofMagnitude (negative : Bool) (magnitude : Nat) : Binary64 :=
  ⟨UInt64.ofNat (if negative then Nat.pow 2 63 + magnitude else magnitude)⟩

def isNaN (x : Binary64) : Bool :=
  infiniteMagnitude < x.magnitude

def isFinite (x : Binary64) : Bool :=
  x.magnitude < infiniteMagnitude

def significand (x : Binary64) : Nat :=
  let fraction := x.magnitude % Nat.pow 2 52
  if x.magnitude < Nat.pow 2 52 then fraction else Nat.pow 2 52 + fraction

def exponent (x : Binary64) : Nat :=
  x.magnitude / Nat.pow 2 52 - 1

def unitsPerOne : Nat :=
  Nat.pow 2 1074

/-- The absolute value of a finite number, counted in units. -/
def units (x : Binary64) : Nat :=
  x.significand * Nat.pow 2 x.exponent

/-- An integer that orders the numbers other than NaNs; both zeros have the same one. -/
def orderKey (x : Binary64) : Int :=
  if x.isNegative then -(x.magnitude : Int) else x.magnitude

/-- Numerical comparison.  A NaN compares with nothing. -/
def compare? (x y : Binary64) : Option Ordering :=
  if x.isNaN || y.isNaN then none else some (compare x.orderKey y.orderKey)

/-- The magnitude nearest to `numerator / denominator`. -/
def roundedMagnitude (numerator denominator : Nat) : Nat :=
  let scaled := numerator * unitsPerOne
  let exponent := (scaled / denominator).log2 - 52
  let step := denominator * Nat.pow 2 exponent
  let low := scaled / step
  let twice := 2 * (scaled % step)
  let significand := if step < twice ∨ twice = step ∧ low % 2 = 1 then low + 1 else low
  min (exponent * Nat.pow 2 52 + significand) infiniteMagnitude

def ofRatio (negative : Bool) (numerator denominator : Nat) : Binary64 :=
  ofMagnitude negative (roundedMagnitude numerator denominator)

def ofInt (value : Int) : Binary64 :=
  ofRatio (value < 0) value.natAbs 1

/-- The number nearest to `digits * 10 ^ power`. -/
def ofDecimal (negative : Bool) (digits : Nat) (power : Int) : Binary64 :=
  ofRatio negative (digits * Nat.pow 10 power.toNat) (Nat.pow 10 (-power).toNat)

def mulAbs (x y : Binary64) : Binary64 :=
  ofRatio false (x.units * y.units) (unitsPerOne * unitsPerOne)

def divAbs (x y : Binary64) : Binary64 :=
  ofRatio false x.units y.units

/-- The integer that a finite number is equal to, if there is one. -/
def toInt? (x : Binary64) : Option Int :=
  if x.isFinite && x.units % unitsPerOne == 0 then
    let value : Int := (x.units / unitsPerOne : Nat)
    some (if x.isNegative then -value else value)
  else none

end Binary64

end DocumentGraph.Number
