import DocumentGraph.Number.Shortest

namespace DocumentGraph.Number

/-! Texts of decimals and of floating-point numbers. -/

namespace Decimal

def digitText (decimal : Decimal) : List Char :=
  decimalDigits decimal.digits

def leadingPower (decimal : Decimal) : Int :=
  decimal.power + decimal.digitText.length - 1

/-- Positional writing, without a point when no digit stands behind it. -/
def positional (decimal : Decimal) : List Char :=
  let digits := decimal.digitText
  let whole := decimal.power + digits.length
  if 0 ≤ decimal.power then
    digits ++ List.replicate decimal.power.toNat '0'
  else if 0 < whole then
    digits.take whole.toNat ++ '.' :: digits.drop whole.toNat
  else
    '0' :: '.' :: List.replicate (-whole).toNat '0' ++ digits

/-- One digit in front of the point, and a signed power of ten. -/
def scientific (decimal : Decimal) : List Char :=
  let power := decimal.leadingPower
  let mantissa := match decimal.digitText with
    | [] => []
    | [digit] => [digit]
    | digit :: digits => digit :: '.' :: digits
  mantissa ++ 'e' :: (if power < 0 then '-' else '+') :: decimalDigits power.natAbs

end Decimal

namespace Binary64

private def signed (x : Binary64) (text : List Char) : String :=
  String.ofList (if x.isNegative then '-' :: text else text)

/-- The text of a number in a table: the fewest digits that read back, never with a power
of ten, and without a point for whole numbers. -/
def plainText (x : Binary64) : String :=
  if x.isNaN then "NaN"
  else if !x.isFinite then x.signed "inf".toList
  else if x.magnitude = 0 then x.signed ['0']
  else x.signed (x.shortest .upper).positional

/-- The text of a finite number in JSON: the fewest digits that read back, positional when
the power of the first digit is between -5 and 15 and always recognisable as a
floating-point number. -/
def jsonText? (x : Binary64) : Option String :=
  if !x.isFinite then none
  else if x.magnitude = 0 then some (x.signed ['0', '.', '0'])
  else
    let decimal := x.shortest .even
    let power := decimal.leadingPower
    if -5 ≤ power && power ≤ 15 then
      let whole := if 0 ≤ decimal.power then ['.', '0'] else []
      some (x.signed (decimal.positional ++ whole))
    else
      some (x.signed decimal.scientific)

end Binary64

end DocumentGraph.Number
