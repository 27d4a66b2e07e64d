import DocumentGraph.Query.Error
import DocumentGraph.Result.Value
import DocumentGraph.Text.LetterCase
import DocumentGraph.Text.Split

namespace DocumentGraph

/-! Comparison of values.

A comparison with NULL is false.  Numbers of different kinds are compared as
floating-point numbers.  Only two numbers or two strings have an order; asking for the
order of anything else is an error.  Tests on strings ignore case.
-/

namespace Value

/-- Equality in conditions: that of values, except that an integer may be equal to a
floating-point number. -/
def equal : Value → Value → Bool
  | integer left, integer right => left = right
  | integer left, float right => (Number.Binary64.ofInt left).compare? right = some .eq
  | float left, integer right => left.compare? (Number.Binary64.ofInt right) = some .eq
  | float left, float right => left.compare? right = some .eq
  | left, right => left.same right

def order? : Value → Value → Option Ordering
  | integer left, integer right => some (compare left right)
  | string left, string right => some (compare left right)
  | left, right => do
      (← left.toBinary64?).compare? (← right.toBinary64?)

/-- Applies a test to the lower-case forms of two strings; it fails on anything else. -/
def testLowered (test : List Char → List Char → Bool) : Value → Value → Bool
  | string left, string right => test (Text.lowerCase left.toList) (Text.lowerCase right.toList)
  | _, _ => false

/-- Whether a node's property meets a literal of a property map.  Strings are compared
without regard to case, and a list has to contain the literal. -/
def meets (value : Value) (literal : Query.Literal) : Bool :=
  match value, literal with
  | list items, .string wanted =>
      items.any fun item => item.text?.any fun text => lowerCase text = lowerCase wanted
  | list items, literal => items.any fun item => item.equal (ofLiteral literal)
  | string actual, .string wanted => lowerCase actual = lowerCase wanted
  | value, literal => value.equal (ofLiteral literal)

end Value

namespace Query.ComparisonOperator

def ordered (operator : ComparisonOperator) (left right : Value) (accepts : Ordering → Bool) :
    Except QueryError Bool :=
  match left.order? right with
  | some order => .ok (accepts order)
  | none => .error (.typeMismatch operator.spelling left.kindName right.kindName)

def apply (operator : ComparisonOperator) (left right : Value) : Except QueryError Bool :=
  if left.isNull || right.isNull then .ok false
  else match operator with
    | equals => .ok (left.equal right)
    | notEquals => .ok (!left.equal right)
    | lessThan => operator.ordered left right (· = .lt)
    | lessEqual => operator.ordered left right (· ≠ .gt)
    | greaterThan => operator.ordered left right (· = .gt)
    | greaterEqual => operator.ordered left right (· ≠ .lt)
    | contains => .ok (left.testLowered (fun text part => Text.occursIn part text) right)
    | startsWith => .ok (left.testLowered (fun text part => part.isPrefixOf text) right)
    | endsWith => .ok (left.testLowered (fun text part => part.isSuffixOf text) right)

end Query.ComparisonOperator

end DocumentGraph
