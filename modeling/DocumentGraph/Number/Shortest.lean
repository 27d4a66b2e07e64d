import DocumentGraph.Number.Binary64

namespace DocumentGraph.Number

/-! The shortest decimal that reads back as a given number.

The decimals that round to a number form an interval around it, whose ends belong to it when
the significand is even.  Grids of one, two, three and more significant digits are tried in
turn.  If a point of a grid lies in the interval then so does one of the number's two
neighbours on that grid, so testing the neighbours is enough.
-/

/-- `digits * 10 ^ power`. -/
structure Decimal where
  digits : Nat
  power : Int
deriving DecidableEq, Repr

/-- Which of two equally near neighbours is taken. -/
inductive Tie where
  | upper
  | even
deriving DecidableEq, Repr

def decimalDigits (value : Nat) : List Char :=
  Nat.toDigits 10 value

namespace Binary64

/-- The power of ten of the first digit of a positive finite number. -/
def leadingPower (x : Binary64) : Int :=
  if unitsPerOne ≤ x.units then
    (decimalDigits (x.units / unitsPerOne)).length - 1
  else
    -((decimalDigits ((unitsPerOne - 1) / x.units)).length : Int)

/-- Whether `digits * 10 ^ power` rounds to a positive finite number.  Distances are counted
in quarters of the last place; below a power of two the numbers lie twice as dense. -/
def readsBack (x : Binary64) (decimal : Decimal) : Bool :=
  let value := decimal.digits * Nat.pow 10 decimal.power.toNat * (4 * unitsPerOne)
  let quarter := Nat.pow 2 x.exponent * Nat.pow 10 (-decimal.power).toNat
  let below := if x.significand = Nat.pow 2 52 && 0 < x.exponent then 1 else 2
  let low := (4 * x.significand - below) * quarter
  let high := (4 * x.significand + 2) * quarter
  if x.significand % 2 = 0 then low ≤ value && value ≤ high
  else low < value && value < high

/-- The decimal with the given number of significant digits that reads back as `x`. -/
def decimalOfLength? (tie : Tie) (x : Binary64) (length : Nat) : Option Decimal :=
  let power := x.leadingPower - (length - 1 : Nat)
  let numerator := x.units * Nat.pow 10 (-power).toNat
  let step := unitsPerOne * Nat.pow 10 power.toNat
  let lower : Decimal := { digits := numerator / step, power }
  let upper : Decimal := { digits := numerator / step + 1, power }
  let twice := 2 * (numerator % step)
  match x.readsBack lower, x.readsBack upper with
  | false, false => none
  | true, false => some lower
  | false, true => some upper
  | true, true =>
      if twice < step || twice = step && tie = .even && lower.digits % 2 = 0 then some lower
      else some upper

/-- The decimal with the fewest digits that reads back as a positive finite number, and of
those the nearest.  Seventeen digits are always enough. -/
def shortest (tie : Tie) (x : Binary64) : Decimal :=
  let decimal := ((List.range' 1 17).findSome? (x.decimalOfLength? tie)).getD
    { digits := x.units, power := 0 }
  if decimal.digits % 10 = 0 then
    { digits := decimal.digits / 10, power := decimal.power + 1 }
  else decimal

end Binary64

end DocumentGraph.Number
