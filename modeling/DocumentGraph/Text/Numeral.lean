namespace DocumentGraph.Text

/-! Whole numbers written in decimal digits.

`digitsValue?` reads a row of the ten ASCII digits; the readers for words of a fixed width
accept a sign in front and refuse what does not fit the word.
-/

def digitValue (c : Char) : Nat :=
  c.toNat - '0'.toNat

/-- The number that a row of digits denotes, most significant digit first. -/
def digitsValue (digits : List Char) : Nat :=
  digits.foldl (fun value c => 10 * value + digitValue c) 0

/-- A row of digits has at least one digit and nothing else. -/
def isDigits (text : List Char) : Bool :=
  !text.isEmpty && text.all Char.isDigit

def digitsValue? (text : List Char) : Option Nat :=
  if isDigits text then some (digitsValue text) else none

/-- A 32-bit count: digits, with or without a plus sign. -/
def readUInt32? (text : List Char) : Option UInt32 := do
  let digits := match text with
    | '+' :: rest => rest
    | _ => text
  let value ← digitsValue? digits
  if value < UInt32.size then some (UInt32.ofNat value) else none

/-- A 64-bit whole number: digits, with or without a sign. -/
def readInt64? (text : List Char) : Option Int64 := do
  let value : Int ← match text with
    | '+' :: digits => (digitsValue? digits).map Int.ofNat
    | '-' :: digits => (digitsValue? digits).map fun value => -(Int.ofNat value)
    | _ => (digitsValue? text).map Int.ofNat
  if Int64.minValue.toInt ≤ value ∧ value ≤ Int64.maxValue.toInt then
    some (Int64.ofInt value)
  else none

end DocumentGraph.Text
