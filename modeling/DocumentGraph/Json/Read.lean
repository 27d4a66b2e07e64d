import DocumentGraph.Json.Basic
import DocumentGraph.Number.Binary64
import DocumentGraph.Text.Numeral

namespace DocumentGraph.Json

/-! Reading JSON texts.

A reader takes a phrase from the front of a text, or fails.  Blanks may stand before every
token.  Lists and objects are read by `delimited`, which is bounded by the length of the
text ahead, since every round takes a comma; so is the depth to which values nest.
-/

abbrev Reader (α : Type) := StateT (List Char) Option α

namespace Reader

def isBlank (c : Char) : Bool :=
  c = ' ' || c = '\n' || c = '\t' || c = '\r'

def blanks : Reader Unit :=
  modify (List.dropWhile isBlank)

def peek : Reader (Option Char) := do
  blanks
  return (← get).head?

def token (c : Char) : Reader Unit := do
  blanks
  match ← get with
  | first :: rest => if first = c then set rest else failure
  | [] => failure

def word (text : String) : Reader Unit := do
  blanks
  match text.toList.isPrefixOf? (← get) with
  | some rest => set rest
  | none => failure

def finish : Reader Unit := do
  blanks
  guard (← get).isEmpty

def furtherUpTo (close : Char) (item : Reader α) : Nat → Reader (List α)
  | 0 => failure
  | bound + 1 => do
      if (← peek) = some ',' then
        token ','
        let first ← item
        let others ← furtherUpTo close item bound
        return first :: others
      else
        token close
        return []

def delimited («open» close : Char) (item : Reader α) : Reader (List α) := do
  token «open»
  if (← peek) = some close then
    token close
    return []
  else
    let first ← item
    let others ← furtherUpTo close item ((← get).length + 1)
    return first :: others

def hexValue? (c : Char) : Option Nat :=
  if c.isDigit then some (c.toNat - '0'.toNat)
  else if 'a' ≤ c && c ≤ 'f' then some (c.toNat - 'a'.toNat + 10)
  else if 'A' ≤ c && c ≤ 'F' then some (c.toNat - 'A'.toNat + 10)
  else none

/-- A 16-bit unit of four hexadecimal digits. -/
def unit? (a b c d : Char) : Option Nat := do
  return (((← hexValue? a) * 16 + (← hexValue? b)) * 16 + (← hexValue? c)) * 16 + (← hexValue? d)

/-- What a backslash and another character than `u` stand for. -/
def simpleEscape? : Char → Option Char
  | '"' => some '"'
  | '\\' => some '\\'
  | '/' => some '/'
  | 'b' => some '\x08'
  | 'f' => some '\x0c'
  | 'n' => some '\n'
  | 'r' => some '\r'
  | 't' => some '\t'
  | _ => none

/-- The characters up to the closing quote.  Two surrogate units make one character; a
surrogate alone makes none. -/
def stringBody? : List Char → Option (List Char × List Char)
  | [] => none
  | '"' :: rest => some ([], rest)
  | '\\' :: 'u' :: a :: b :: c :: d :: rest => do
      let first ← unit? a b c d
      if 0xd800 ≤ first && first < 0xdc00 then
        match rest with
        | '\\' :: 'u' :: e :: f :: g :: h :: rest => do
            let second ← unit? e f g h
            if 0xdc00 ≤ second && second < 0xe000 then
              let value := 0x10000 + (first - 0xd800) * 0x400 + (second - 0xdc00)
              let (text, behind) ← stringBody? rest
              return (Char.ofNat value :: text, behind)
            else none
        | _ => none
      else if 0xdc00 ≤ first && first < 0xe000 then none
      else do
        let (text, behind) ← stringBody? rest
        return (Char.ofNat first :: text, behind)
  | '\\' :: c :: rest => do
      let value ← simpleEscape? c
      let (text, behind) ← stringBody? rest
      return (value :: text, behind)
  | c :: rest =>
      if c.toNat < 32 then none
      else do
        let (text, behind) ← stringBody? rest
        return (c :: text, behind)

def string : Reader String := do
  token '"'
  let (text, behind) ← stringBody? (← get)
  set behind
  return String.ofList text

/-- A key and, behind a colon, what stands under it. -/
def member (item : Reader α) : Reader (String × α) := do
  let key ← string
  token ':'
  return (key, ← item)

/-- The text behind the closing quote of a string that is passed over, whose units need not
make characters. -/
def behindString? : List Char → Option (List Char)
  | [] => none
  | '"' :: rest => some rest
  | '\\' :: 'u' :: a :: b :: c :: d :: rest =>
      if (unit? a b c d).isSome then behindString? rest else none
  | '\\' :: c :: rest => if (simpleEscape? c).isSome then behindString? rest else none
  | c :: rest => if c.toNat < 32 then none else behindString? rest

def skipString : Reader Unit := do
  token '"'
  set (← behindString? (← get))

structure Numeral where
  negative : Bool
  whole : List Char
  fraction : Option (List Char)
  /-- Whether the exponent is negative, and its digits. -/
  exponent : Option (Bool × List Char)
deriving DecidableEq, Repr

def digits : Reader (List Char) := do
  let text ← get
  set (text.dropWhile Char.isDigit)
  return text.takeWhile Char.isDigit

def someDigits : Reader (List Char) := do
  let found ← digits
  guard !found.isEmpty
  return found

/-- Takes the next character, blanks included, if it is one of the given ones. -/
def oneOf? (choices : List Char) : Reader (Option Char) := do
  match ← get with
  | c :: rest => if c ∈ choices then set rest; return some c else return none
  | [] => return none

def numeral : Reader Numeral := do
  blanks
  let negative := (← oneOf? ['-']).isSome
  let whole ← someDigits
  guard (whole.head? ≠ some '0' || whole.length = 1)
  let fraction ←
    if (← oneOf? ['.']).isSome then pure (some (← someDigits)) else pure none
  let exponent ←
    if (← oneOf? ['e', 'E']).isSome then do
      let sign ← oneOf? ['+', '-']
      pure (some (decide (sign = some '-'), ← someDigits))
    else
      pure none
  return { negative, whole, fraction, exponent }

end Reader

namespace Reader.Numeral

/-- Takes digits in while the significand fits 64 bits; also gives the number of digits
taken. -/
def takeIn (significand : Nat) : List Char → Nat × Nat
  | [] => (significand, 0)
  | c :: rest =>
      let next := 10 * significand + Text.digitValue c
      if next < UInt64.size then
        let (value, taken) := takeIn next rest
        (value, taken + 1)
      else (significand, 0)

/-- Scales by a power of ten, no more than 308 places at a time.  Nothing if the result is
too large. -/
def scale? (value : Number.Binary64) (power : Int) : Option Number.Binary64 :=
  if value.magnitude = 0 then some value
  else if 308 < power then none
  else if 0 ≤ power then
    let result := value.mulAbs (Number.Binary64.ofDecimal false 1 power)
    if result.isFinite then some result else none
  else if -308 ≤ power then
    some (value.divAbs (Number.Binary64.ofDecimal false 1 (-power)))
  else
    scale? (value.divAbs (Number.Binary64.ofDecimal false 1 308)) (power + 308)
termination_by (-power).toNat
decreasing_by omega

/-- The number that the digits which fit 64 bits denote, rounded, and scaled by a power of ten,
rounded again; so it may differ from the nearest number in its last bit. -/
def float? (numeral : Numeral) : Option Number.Binary64 := do
  let (whole, taken) := takeIn 0 numeral.whole
  let (significand, places) := takeIn whole (numeral.fraction.getD [])
  let power : Int := (numeral.whole.length - taken : Nat) - (places : Int)
  let magnitude ← match numeral.exponent with
    | none => scale? (Number.Binary64.ofInt significand) power
    | some (down, digits) =>
        let exponent := Text.digitsValue digits
        if exponent < Nat.pow 2 31 then
          scale? (Number.Binary64.ofInt significand)
            (if down then power - exponent else power + exponent)
        else if significand = 0 || down then some (Number.Binary64.ofInt 0)
        else none
  return Number.Binary64.ofMagnitude numeral.negative magnitude.magnitude

/-- The integer that a numeral without fraction and exponent denotes, if 64 bits hold it,
with or without a sign.  Minus zero is none. -/
def integer? (numeral : Numeral) : Option Int :=
  if numeral.fraction.isSome || numeral.exponent.isSome then none
  else
    let value := Text.digitsValue numeral.whole
    if numeral.negative then
      if 0 < value && value ≤ Nat.pow 2 63 then some (-value) else none
    else
      if value < Nat.pow 2 64 then some value else none

def toJson? (numeral : Numeral) : Option Json :=
  match numeral.integer? with
  | some value => some (integer value)
  | none => numeral.float?.map float

end Reader.Numeral

namespace Reader

/-- Any value.  The bound limits how deeply values nest. -/
def valueUpTo : Nat → Reader Json
  | 0 => failure
  | bound + 1 => do
      match ← peek with
      | some '\x7b' => return .object (← delimited '\x7b' '\x7d' (member (valueUpTo bound)))
      | some '[' => return .array (← delimited '[' ']' (valueUpTo bound))
      | some '"' => return .string (← string)
      | some 'n' => word "null"; return .null
      | some 't' => word "true"; return .boolean true
      | some 'f' => word "false"; return .boolean false
      | _ =>
          match (← numeral).toJson? with
          | some value => return value
          | none => failure

def value : Reader Json := do
  valueUpTo ((← get).length + 1)

/-- Passes over any value.  The bound limits how deeply values nest. -/
def skipUpTo : Nat → Reader Unit
  | 0 => failure
  | bound + 1 => do
      match ← peek with
      | some '\x7b' => do
          let member : Reader Unit := do
            skipString
            token ':'
            skipUpTo bound
          discard (delimited '\x7b' '\x7d' member)
      | some '[' => discard (delimited '[' ']' (skipUpTo bound))
      | some '"' => skipString
      | some 'n' => word "null"
      | some 't' => word "true"
      | some 'f' => word "false"
      | _ => discard numeral

def skipValue : Reader Unit := do
  skipUpTo ((← get).length + 1)

end Reader

end DocumentGraph.Json
