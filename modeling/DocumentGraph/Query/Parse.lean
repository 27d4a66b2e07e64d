import DocumentGraph.Query.Basic
import DocumentGraph.Query.Error
import DocumentGraph.Query.Token
import DocumentGraph.Text.Numeral

namespace DocumentGraph.Query

/-! From tokens to a query.

A phrase is read from the front of the tokens ahead; what is behind them is one token
that marks the end and is never passed.  Repetition is bounded by the number of tokens
ahead, since each round takes a separator, and nesting by an allowance that the phrase
receives.
-/

/-- Reading one phrase.  The environment is the end marker, the state holds the tokens
ahead, which have no end marker among them. -/
abbrev Parse (α : Type) := ReaderT Token (StateT (List Token) (Except QueryError)) α

instance : Coe Keyword Kind := ⟨Kind.keyword⟩
instance : Coe Symbol Kind := ⟨Kind.symbol⟩

namespace Parse

/-- The next token, or the end marker when no token is ahead. -/
def peek : Parse Token := do
  return (← get).headD (← read)

def skip : Parse Unit :=
  modify List.tail

def reject (expected : String) : Parse α := do
  let found ← peek
  throw (.unexpectedToken expected found.describe found.position)

def accept (kind : Kind) : Parse Bool := do
  if (← peek).kind = kind then
    skip
    return true
  else
    return false

def expect (kind : Kind) : Parse Unit := do
  unless ← accept kind do
    reject kind.description

/-- A phrase that is there when the next token is of the given kind.  What is read is the
rest of the phrase, behind that token. -/
def optionally (opening : Kind) (phrase : Token → Parse α) : Parse (Option α) := do
  let token ← peek
  if token.kind = opening then
    skip
    return some (← phrase token)
  else
    return none

def furtherUpTo (separator : Kind) (phrase : Parse α) : Nat → Parse (List α)
  | 0 => return []
  | bound + 1 => do
      if ← accept separator then
        let first ← phrase
        let others ← furtherUpTo separator phrase bound
        return first :: others
      else
        return []

/-- A phrase and, behind separators, any number of further phrases. -/
def separated (separator : Kind) (phrase : Parse α) : Parse (α × List α) := do
  let first ← phrase
  let others ← furtherUpTo separator phrase (← get).length
  return (first, others)

def listed (separator : Kind) (phrase : Parse α) : Parse (List α) := do
  let (first, others) ← separated separator phrase
  return first :: others

def named? (kind : Kind) : Parse (Option Identifier) :=
  optionally kind fun token => return { name := token.text, position := token.position }

def identifier (expected : String) : Parse Identifier := do
  match ← named? .identifier with
  | some identifier => return identifier
  | none => reject expected

/-- Property names, keys of property maps and aliases may also spell a reserved word. -/
def name (expected : String) : Parse String := do
  let token ← peek
  if token.kind = .identifier || token.kind.isKeyword then
    skip
    return token.text
  else
    reject expected

def literal? : Parse (Option Literal) := do
  let token ← peek
  match token.kind with
  | .string => skip; return some (.string token.text)
  | .integer =>
      match Text.readInt64? token.text.toList with
      | some value => skip; return some (.integer value)
      | none =>
          throw (.invalidLiteral ("integer " ++ token.text ++ " is out of range") token.position)
  | .keyword .trueWord => skip; return some (.boolean true)
  | .keyword .falseWord => skip; return some (.boolean false)
  | .keyword .nullWord => skip; return some .null
  | _ => return none

def propertyAccess : Parse PropertyAccess := do
  let owner ← identifier "variable"
  expect Symbol.dot
  let property ← name "property name"
  return { owner, property }

/-- A variable, or a property of it if there is a dot behind it. -/
def reference (ofProperty : PropertyAccess → α) (ofVariable : Identifier → α) : Parse α := do
  let owner ← identifier "property or variable"
  if ← accept Symbol.dot then
    return ofProperty { owner, property := ← name "property name" }
  else
    return ofVariable owner

def propertyPair : Parse (String × Literal) := do
  let key ← name "property key"
  expect Symbol.colon
  match ← literal? with
  | some value => return (key, value)
  | none =>
      let found ← peek
      throw (.invalidLiteral
        ("property `" ++ key ++ "` must be a string, integer, boolean or null, found " ++
          found.describe) found.position)

/-- A property map behind its opening brace. -/
def propertyMap : Parse (List (String × Literal)) := do
  if ← accept Symbol.rightBrace then
    return []
  else
    let pairs ← listed Symbol.comma propertyPair
    expect Symbol.rightBrace
    return pairs

def nodePattern : Parse NodePattern := do
  let position := (← peek).position
  expect Symbol.leftParen
  let binder ← named? .identifier
  let label ← named? .label
  let properties ← optionally Symbol.leftBrace fun _ => propertyMap
  expect Symbol.rightParen
  return { binder, label, properties, position }

def hopBound? : Parse (Option UInt32) :=
  optionally .integer fun token =>
    match Text.readUInt32? token.text.toList with
    | some bound => return bound
    | none =>
        throw (.invalidLiteral ("hop bound " ++ token.text ++ " is out of range") token.position)

/-- Bounds behind a star: none, one for both ends, or two around dots.  An upper bound
alone lets the lower one be zero. -/
def hopRange (star : Token) : Parse HopRange := do
  let low ← hopBound?
  if ← accept Symbol.dotDot then
    match low, ← hopBound? with
    | low, none => return { min := low, max := none }
    | low, some high =>
        let low := low.getD 0
        if high < low then
          throw (.invalidRange low high star.position)
        else
          return { min := some low, max := some high }
  else
    return { min := low, max := low }

/-- The end of a relationship, which decides its direction. -/
def direction (leftward : Bool) : Parse Direction := do
  if leftward then
    if ← accept Symbol.dash then
      return .backward
    else
      reject "'-'"
  else if ← accept Symbol.rightArrow then
    return .forward
  else if ← accept Symbol.dash then
    if ← accept Symbol.greaterThan then
      return .forward
    else
      return .either
  else
    reject "'-' or '->'"

/-- A relationship behind its first token, a dash or a left arrow. -/
def relationshipPattern (opening : Token) : Parse RelationshipPattern := do
  expect Symbol.leftBracket
  let binder ← named? .identifier
  let type ← named? .label
  let range ← optionally Symbol.asterisk hopRange
  expect Symbol.rightBracket
  let direction ← direction (opening.kind = Symbol.leftArrow)
  return { binder, type, direction, range, position := opening.position }

def hopsUpTo : Nat → Parse (List Hop)
  | 0 => return []
  | bound + 1 => do
      let opening ← peek
      if opening.kind = Symbol.dash ∨ opening.kind = Symbol.leftArrow then
        skip
        let relationship ← relationshipPattern opening
        let node ← nodePattern
        let others ← hopsUpTo bound
        return { relationship, node } :: others
      else
        return []

def pattern : Parse Pattern := do
  let start ← nodePattern
  let hops ← hopsUpTo (← get).length
  return { start, hops }

def comparisonOperator : Parse ComparisonOperator := do
  match (← peek).kind with
  | .symbol .equals => skip; return .equals
  | .symbol .notEquals => skip; return .notEquals
  | .symbol .lessThan => skip; return .lessThan
  | .symbol .lessEqual => skip; return .lessEqual
  | .symbol .greaterThan => skip; return .greaterThan
  | .symbol .greaterEqual => skip; return .greaterEqual
  | .keyword .containsWord => skip; return .contains
  | .keyword .startsWord => skip; expect Keyword.withWord; return .startsWith
  | .keyword .endsWord => skip; expect Keyword.withWord; return .endsWith
  | _ => reject "comparison operator"

/-- The right-hand side of a comparison: an identifier with a dot behind it begins a
property. -/
def operand : Parse Operand := do
  let ahead ← get
  if (← peek).kind = .identifier && (ahead[1]?.map Token.kind) = some (.symbol .dot) then
    return .property (← propertyAccess)
  else
    match ← literal? with
    | some value => return .literal value
    | none => reject "property reference or literal"

def predicate : Parse Condition := do
  let left ← propertyAccess
  if ← accept Keyword.isWord then
    let negated ← accept Keyword.notWord
    expect Keyword.nullWord
    return .nullCheck left negated
  else
    let operator ← comparisonOperator
    let right ← operand
    return .comparison left operator right

/-- Conditions joined by a word, grouped to the left. -/
def grouped (word : Keyword) (join : Condition → Condition → Condition)
    (phrase : Parse Condition) : Parse Condition := do
  let (first, others) ← separated word phrase
  return others.foldl join first

def conjunction (term : Parse Condition) : Parse Condition :=
  grouped .andWord .and term

def disjunction (term : Parse Condition) : Parse Condition :=
  grouped .orWord .or (conjunction term)

/-- A condition without AND and OR at its top.  The allowance is the number of
negations and parentheses that may still be opened, plus one. -/
def term : Nat → Parse Condition
  | 0 => reject "a less deeply nested expression"
  | allowance + 1 => do
      if ← accept Keyword.notWord then
        return .not (← term allowance)
      else if ← accept Symbol.leftParen then
        let inner ← disjunction (term allowance)
        expect Symbol.rightParen
        return inner
      else
        predicate

/-- How deeply negations and parentheses may nest around a comparison, plus one. -/
def nestingAllowance : Nat := 64

def condition : Parse Condition :=
  disjunction (term nestingAllowance)

def aggregateArgument (function : AggregateFunction) (distinct : Bool) :
    Parse AggregateArgument := do
  if ← (if function = .count && !distinct then accept Symbol.asterisk else pure false) then
    return .star
  else
    reference .property .element

def aggregate (function : AggregateFunction) : Parse Aggregate := do
  expect Symbol.leftParen
  let distinct ← accept Keyword.distinctWord
  let argument ← aggregateArgument function distinct
  expect Symbol.rightParen
  return { function, distinct, argument }

def returnExpression : Parse ReturnExpression := do
  match (← peek).kind with
  | .keyword .countWord => skip; return .aggregate (← aggregate .count)
  | .keyword .collectWord => skip; return .aggregate (← aggregate .collect)
  | _ => reference .property .element

def returnItem : Parse ReturnItem := do
  let expression ← returnExpression
  if ← accept Keyword.asWord then
    return { expression, columnAlias := some (← name "alias") }
  else
    return { expression }

def projection : Parse Projection := do
  let distinct ← accept Keyword.distinctWord
  return { distinct, items := ← listed Symbol.comma returnItem }

/-- The word that opens a clause which every query has. -/
def clause (word : Keyword) : Parse Unit := do
  unless ← accept word do
    throw (.missingClause word.spelling (← peek).position)

def query : Parse Query := do
  clause .matchWord
  let patterns ← listed Symbol.comma pattern
  let condition ← optionally Keyword.whereWord fun _ => condition
  clause .returnWord
  let projection ← projection
  if (← peek).kind = .endOfText then
    return { patterns, condition, projection }
  else
    reject "end of query"

end Parse

def tokensAhead (tokens : List Token) : List Token :=
  tokens.takeWhile (·.kind ≠ .endOfText)

/-- The first end marker.  Tokens without one end where their last token begins. -/
def endMarker (tokens : List Token) : Token :=
  match tokens.find? (·.kind = .endOfText) with
  | some marker => marker
  | none => Token.endAt ((tokens.getLast?.map Token.position).getD {})

/-- The query that the tokens spell, before its names are checked. -/
def ofTokens (tokens : List Token) : Except QueryError Query :=
  match Parse.query (endMarker tokens) (tokensAhead tokens) with
  | .error error => .error error
  | .ok (query, _) => .ok query

end DocumentGraph.Query
