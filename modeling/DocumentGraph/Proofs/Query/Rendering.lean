import DocumentGraph.Proofs.Query.Spaced
import DocumentGraph.Proofs.Query.WellFormed

namespace DocumentGraph.Query

/-! Queries as text.

Every query has one canonical row of words: reserved words in upper case, arrows in one piece,
bounds of a range around dots, and no more parentheses than needed.  The text of the query has
single spaces between these words.
-/

namespace Word

def keyword (word : Keyword) : Word where
  kind := .keyword word
  text := word.spelling

def symbol (mark : Symbol) : Word where
  kind := .symbol mark
  text := mark.spelling

/-- A variable, or a property behind its dot. -/
def identifier (name : String) : Word where
  kind := .identifier
  text := name

/-- A key or an alias, which may spell a reserved word. -/
def name (name : String) : Word where
  kind := match Keyword.ofWord? name.toList with
    | some word => .keyword word
    | none => .identifier
  text := name

def label (name : String) : Word where
  kind := .label
  text := name

def string (value : String) : Word where
  kind := .string
  text := value

def number (value : Nat) : Word where
  kind := .integer
  text := toString value

end Word

section Parts

variable {α : Type}

def optional (words : α → List Word) : Option α → List Word
  | none => []
  | some value => words value

def flagged (word : Keyword) : Bool → List Word
  | true => [.keyword word]
  | false => []

/-- Rows of words with commas between them. -/
def separated : List (List Word) → List Word
  | [] => []
  | first :: others => first ++ others.flatMap (Word.symbol .comma :: ·)

end Parts

def Identifier.words (identifier : Identifier) : List Word :=
  [.identifier identifier.name]

def labelWords (label : Identifier) : List Word :=
  [.label label.name]

def Literal.word : Literal → Word
  | string value => .string value
  | integer value => .number value.toInt.toNat
  | boolean true => .keyword .trueWord
  | boolean false => .keyword .falseWord
  | null => .keyword .nullWord

def PropertyAccess.words (access : PropertyAccess) : List Word :=
  [.identifier access.owner.name, .symbol .dot, .identifier access.property]

def pairWords (pair : String × Literal) : List Word :=
  [.name pair.1, .symbol .colon, pair.2.word]

def mapWords (pairs : List (String × Literal)) : List Word :=
  .symbol .leftBrace :: (separated (pairs.map pairWords) ++ [.symbol .rightBrace])

def NodePattern.words (pattern : NodePattern) : List Word :=
  .symbol .leftParen ::
    (optional Identifier.words pattern.binder ++
      (optional labelWords pattern.label ++
        (optional mapWords pattern.properties ++ [.symbol .rightParen])))

/-- An upper bound is written behind a lower one only. -/
def HopRange.words (range : HopRange) : List Word :=
  .symbol .asterisk ::
    match range.min, range.max with
    | none, _ => []
    | some low, none => [.number low.toNat, .symbol .dotDot]
    | some low, some high => [.number low.toNat, .symbol .dotDot, .number high.toNat]

def Direction.opening : Direction → Symbol
  | backward => .leftArrow
  | forward | either => .dash

def Direction.closing : Direction → Symbol
  | forward => .rightArrow
  | backward | either => .dash

def RelationshipPattern.words (pattern : RelationshipPattern) : List Word :=
  .symbol pattern.direction.opening :: .symbol .leftBracket ::
    (optional Identifier.words pattern.binder ++
      (optional labelWords pattern.type ++
        (optional HopRange.words pattern.range ++
          [.symbol .rightBracket, .symbol pattern.direction.closing])))

def Hop.words (hop : Hop) : List Word :=
  hop.relationship.words ++ hop.node.words

def Pattern.words (pattern : Pattern) : List Word :=
  pattern.start.words ++ pattern.hops.flatMap Hop.words

def ComparisonOperator.words : ComparisonOperator → List Word
  | equals => [.symbol .equals]
  | notEquals => [.symbol .notEquals]
  | lessThan => [.symbol .lessThan]
  | lessEqual => [.symbol .lessEqual]
  | greaterThan => [.symbol .greaterThan]
  | greaterEqual => [.symbol .greaterEqual]
  | contains => [.keyword .containsWord]
  | startsWith => [.keyword .startsWord, .keyword .withWord]
  | endsWith => [.keyword .endsWord, .keyword .withWord]

def Operand.words : Operand → List Word
  | property access => access.words
  | literal value => [value.word]

def parenthesised (words : List Word) : List Word :=
  .symbol .leftParen :: (words ++ [.symbol .rightParen])

/-- A condition at some level, in parentheses if it needs them there. -/
def Condition.words : Grammar.Level → Condition → List Word
  | _, comparison left operator right => left.words ++ (operator.words ++ right.words)
  | _, nullCheck access negated =>
      access.words ++ (.keyword .isWord :: (flagged .notWord negated ++ [.keyword .nullWord]))
  | _, not inner => .keyword .notWord :: inner.words .term
  | level, and left right =>
      let bare := left.words .conjunction ++ .keyword .andWord :: right.words .term
      if level.holdsAnd then bare else parenthesised bare
  | level, or left right =>
      let bare := left.words .disjunction ++ .keyword .orWord :: right.words .conjunction
      if level.holdsOr then bare else parenthesised bare

def filterWords (condition : Condition) : List Word :=
  .keyword .whereWord :: condition.words .disjunction

def AggregateArgument.words : AggregateArgument → List Word
  | star => [.symbol .asterisk]
  | property access => access.words
  | element identifier => identifier.words

def Aggregate.words (aggregate : Aggregate) : List Word :=
  .keyword (Grammar.functionWord aggregate.function) :: .symbol .leftParen ::
    (flagged .distinctWord aggregate.distinct ++
      (aggregate.argument.words ++ [.symbol .rightParen]))

def ReturnExpression.words : ReturnExpression → List Word
  | property access => access.words
  | element identifier => identifier.words
  | aggregate value => value.words

def aliasWords (name : String) : List Word :=
  [.keyword .asWord, .name name]

def ReturnItem.words (item : ReturnItem) : List Word :=
  item.expression.words ++ optional aliasWords item.columnAlias

def Projection.words (projection : Projection) : List Word :=
  flagged .distinctWord projection.distinct ++ separated (projection.items.map ReturnItem.words)

def words (query : DocumentGraph.Query) : List Word :=
  .keyword .matchWord ::
    (separated (query.patterns.map Pattern.words) ++
      (optional filterWords query.condition ++
        .keyword .returnWord :: query.projection.words))

/-- The canonical text of a query. -/
def render (query : DocumentGraph.Query) : String :=
  String.ofList (spaced query.words)

end DocumentGraph.Query
