import DocumentGraph.Proofs.Text.Numeral
import DocumentGraph.Query.Basic
import DocumentGraph.Query.Token

namespace DocumentGraph.Query.Grammar

open Text (SignedNumeral UnsignedNumeral)

/-! The grammar of queries.

Every relation of this module says which runs of tokens spell a phrase, and what they spell.
A run is put together from the runs of its parts; nothing is said about how the parts are
found.
-/

variable {α : Type}

/-- A phrase that may be left out. -/
inductive Optional (phrase : List Token → α → Prop) : List Token → Option α → Prop where
  | absent : Optional phrase [] none
  | present {run : List Token} {value : α} (written : phrase run value) :
      Optional phrase run (some value)

/-- A word that may be left out, and whether it is there. -/
inductive Flag (word : Keyword) : List Token → Bool → Prop where
  | absent : Flag word [] false
  | present {token : Token} (sort : token.kind = .keyword word) : Flag word [token] true

/-- Any number of phrases, with a separator in front of each. -/
inductive Further (separator : Kind) (phrase : List Token → α → Prop) :
    List Token → List α → Prop where
  | none : Further separator phrase [] []
  | more {mark : Token} {run rest : List Token} {value : α} {values : List α}
      (sort : mark.kind = separator) (next : phrase run value)
      (others : Further separator phrase rest values) :
      Further separator phrase (mark :: (run ++ rest)) (value :: values)

/-- One or more phrases, with separators between them. -/
inductive Separated (separator : Kind) (phrase : List Token → α → Prop) :
    List Token → List α → Prop where
  | mk {run rest : List Token} {value : α} {values : List α} (first : phrase run value)
      (others : Further separator phrase rest values) :
      Separated separator phrase (run ++ rest) (value :: values)

inductive Named (kind : Kind) : List Token → Identifier → Prop where
  | mk {token : Token} (sort : token.kind = kind) :
      Named kind [token] { name := token.text, position := token.position }

/-- Property names, keys and aliases may also spell a reserved word. -/
inductive Name : List Token → String → Prop where
  | identifier {token : Token} (sort : token.kind = .identifier) : Name [token] token.text
  | keyword {token : Token} {word : Keyword} (sort : token.kind = .keyword word) :
      Name [token] token.text

/-- A whole number must be one of 64 bits. -/
inductive Literal : List Token → Query.Literal → Prop where
  | string {token : Token} (sort : token.kind = .string) : Literal [token] (.string token.text)
  | integer {token : Token} {value : Int64} (sort : token.kind = .integer)
      (number : SignedNumeral token.text.toList value.toInt) : Literal [token] (.integer value)
  | trueWord {token : Token} (sort : token.kind = .keyword .trueWord) :
      Literal [token] (.boolean true)
  | falseWord {token : Token} (sort : token.kind = .keyword .falseWord) :
      Literal [token] (.boolean false)
  | nullWord {token : Token} (sort : token.kind = .keyword .nullWord) : Literal [token] .null

/-- The variable must not spell a reserved word. -/
inductive Access : List Token → PropertyAccess → Prop where
  | mk {first second : List Token} {dot : Token} {owner : Identifier} {property : String}
      (owned : Named .identifier first owner) (mark : dot.kind = .symbol .dot)
      (named : Name second property) : Access (first ++ dot :: second) { owner, property }

inductive PropertyPair : List Token → String × Query.Literal → Prop where
  | mk {first second : List Token} {colon : Token} {key : String} {value : Query.Literal}
      (named : Name first key) (mark : colon.kind = .symbol .colon)
      (literal : Literal second value) : PropertyPair (first ++ colon :: second) (key, value)

inductive PropertyMap : List Token → List (String × Query.Literal) → Prop where
  | empty {left right : Token} (opened : left.kind = .symbol .leftBrace)
      (closed : right.kind = .symbol .rightBrace) : PropertyMap [left, right] []
  | pairs {left right : Token} {run : List Token} {pairs : List (String × Query.Literal)}
      (opened : left.kind = .symbol .leftBrace)
      (listed : Separated (.symbol .comma) PropertyPair run pairs)
      (closed : right.kind = .symbol .rightBrace) : PropertyMap (left :: (run ++ [right])) pairs

inductive NodePattern : List Token → Query.NodePattern → Prop where
  | mk {left right : Token} {first second third : List Token} {binder label : Option Identifier}
      {properties : Option (List (String × Query.Literal))}
      (opened : left.kind = .symbol .leftParen)
      (bound : Optional (Named .identifier) first binder)
      (labelled : Optional (Named .label) second label)
      (required : Optional PropertyMap third properties)
      (closed : right.kind = .symbol .rightParen) :
      NodePattern (left :: (first ++ (second ++ (third ++ [right]))))
        { binder, label, properties, position := left.position }

/-- A bound must be a whole number of 32 bits. -/
inductive HopBound : List Token → UInt32 → Prop where
  | mk {token : Token} {bound : UInt32} (sort : token.kind = .integer)
      (number : UnsignedNumeral token.text.toList bound.toNat) : HopBound [token] bound

/-- One bound alone stands for both ends.  Around dots an absent upper bound stays open, and
an absent lower bound in front of an upper one is zero. -/
inductive HopRange : List Token → Query.HopRange → Prop where
  | any {star : Token} (starred : star.kind = .symbol .asterisk) :
      HopRange [star] { min := none, max := none }
  | exactly {star : Token} {run : List Token} {bound : UInt32}
      (starred : star.kind = .symbol .asterisk) (bounded : HopBound run bound) :
      HopRange (star :: run) { min := some bound, max := some bound }
  | atLeast {star dots : Token} {run : List Token} {low : Option UInt32}
      (starred : star.kind = .symbol .asterisk) (below : Optional HopBound run low)
      (dotted : dots.kind = .symbol .dotDot) :
      HopRange (star :: (run ++ [dots])) { min := low, max := none }
  | atMost {star dots : Token} {run : List Token} {high : UInt32}
      (starred : star.kind = .symbol .asterisk) (dotted : dots.kind = .symbol .dotDot)
      (above : HopBound run high) :
      HopRange (star :: dots :: run) { min := some 0, max := some high }
  | between {star dots : Token} {first second : List Token} {low high : UInt32}
      (starred : star.kind = .symbol .asterisk) (below : HopBound first low)
      (dotted : dots.kind = .symbol .dotDot) (above : HopBound second high)
      (ordered : low ≤ high) :
      HopRange (star :: (first ++ dots :: second)) { min := some low, max := some high }

/-- How a relationship begins and ends.  An arrow may stand at one end only; the arrow to the
right may be written apart. -/
inductive Ends : Token → List Token → Direction → Prop where
  | forward {first last : Token} (dash : first.kind = .symbol .dash)
      (arrow : last.kind = .symbol .rightArrow) : Ends first [last] .forward
  | forwardApart {first last tip : Token} (dash : first.kind = .symbol .dash)
      (shaft : last.kind = .symbol .dash) (arrow : tip.kind = .symbol .greaterThan) :
      Ends first [last, tip] .forward
  | either {first last : Token} (dash : first.kind = .symbol .dash)
      (shaft : last.kind = .symbol .dash) : Ends first [last] .either
  | backward {first last : Token} (arrow : first.kind = .symbol .leftArrow)
      (shaft : last.kind = .symbol .dash) : Ends first [last] .backward

inductive RelationshipPattern : List Token → Query.RelationshipPattern → Prop where
  | mk {opening left right : Token} {first second third closing : List Token}
      {binder type : Option Identifier} {range : Option Query.HopRange} {direction : Direction}
      (opened : left.kind = .symbol .leftBracket)
      (bound : Optional (Named .identifier) first binder)
      (typed : Optional (Named .label) second type)
      (ranged : Optional HopRange third range)
      (closed : right.kind = .symbol .rightBracket)
      (directed : Ends opening closing direction) :
      RelationshipPattern
        (opening :: left :: (first ++ (second ++ (third ++ right :: closing))))
        { binder, type, direction, range, position := opening.position }

inductive Hops : List Token → List Hop → Prop where
  | none : Hops [] []
  | more {first second rest : List Token} {relationship : Query.RelationshipPattern}
      {node : Query.NodePattern} {hops : List Hop}
      (joined : RelationshipPattern first relationship) (reached : NodePattern second node)
      (others : Hops rest hops) :
      Hops (first ++ (second ++ rest)) ({ relationship, node } :: hops)

inductive Pattern : List Token → Query.Pattern → Prop where
  | mk {first rest : List Token} {start : Query.NodePattern} {hops : List Hop}
      (begun : NodePattern first start) (followed : Hops rest hops) :
      Pattern (first ++ rest) { start, hops }

inductive Operator : List Token → ComparisonOperator → Prop where
  | equals {token : Token} (sort : token.kind = .symbol .equals) : Operator [token] .equals
  | notEquals {token : Token} (sort : token.kind = .symbol .notEquals) :
      Operator [token] .notEquals
  | lessThan {token : Token} (sort : token.kind = .symbol .lessThan) : Operator [token] .lessThan
  | lessEqual {token : Token} (sort : token.kind = .symbol .lessEqual) :
      Operator [token] .lessEqual
  | greaterThan {token : Token} (sort : token.kind = .symbol .greaterThan) :
      Operator [token] .greaterThan
  | greaterEqual {token : Token} (sort : token.kind = .symbol .greaterEqual) :
      Operator [token] .greaterEqual
  | contains {token : Token} (sort : token.kind = .keyword .containsWord) :
      Operator [token] .contains
  | startsWith {first second : Token} (sort : first.kind = .keyword .startsWord)
      (joined : second.kind = .keyword .withWord) : Operator [first, second] .startsWith
  | endsWith {first second : Token} (sort : first.kind = .keyword .endsWord)
      (joined : second.kind = .keyword .withWord) : Operator [first, second] .endsWith

inductive Operand : List Token → Query.Operand → Prop where
  | property {run : List Token} {access : PropertyAccess} (written : Access run access) :
      Operand run (.property access)
  | literal {run : List Token} {value : Query.Literal} (written : Literal run value) :
      Operand run (.literal value)

inductive Predicate : List Token → Query.Condition → Prop where
  | comparison {first second third : List Token} {left : PropertyAccess}
      {operator : ComparisonOperator} {right : Query.Operand} (compared : Access first left)
      (operated : Operator second operator) (against : Operand third right) :
      Predicate (first ++ (second ++ third)) (.comparison left operator right)
  | isNull {run : List Token} {is null : Token} {access : PropertyAccess}
      (checked : Access run access) (asked : is.kind = .keyword .isWord)
      (missing : null.kind = .keyword .nullWord) :
      Predicate (run ++ [is, null]) (.nullCheck access false)
  | isNotNull {run : List Token} {is not null : Token} {access : PropertyAccess}
      (checked : Access run access) (asked : is.kind = .keyword .isWord)
      (negated : not.kind = .keyword .notWord) (missing : null.kind = .keyword .nullWord) :
      Predicate (run ++ [is, not, null]) (.nullCheck access true)

inductive Level where
  | term | conjunction | disjunction

/-- Fewer negations and parentheses than this stand around any comparison. -/
def nestingLimit : Nat := 64

/-- Conditions inside a number of negations and parentheses.  AND holds its sides together
more tightly than OR, and NOT more tightly than AND; AND and OR group to the left. -/
inductive Condition : Level → Nat → List Token → Query.Condition → Prop where
  | predicate {around : Nat} {run : List Token} {condition : Query.Condition}
      (shallow : around < nestingLimit) (written : Predicate run condition) :
      Condition .term around run condition
  | not {around : Nat} {word : Token} {run : List Token} {inner : Query.Condition}
      (sort : word.kind = .keyword .notWord) (negated : Condition .term (around + 1) run inner) :
      Condition .term around (word :: run) (.not inner)
  | parentheses {around : Nat} {left right : Token} {run : List Token} {inner : Query.Condition}
      (opened : left.kind = .symbol .leftParen)
      (grouped : Condition .disjunction (around + 1) run inner)
      (closed : right.kind = .symbol .rightParen) :
      Condition .term around (left :: (run ++ [right])) inner
  | term {around : Nat} {run : List Token} {condition : Query.Condition}
      (single : Condition .term around run condition) :
      Condition .conjunction around run condition
  | and {around : Nat} {word : Token} {first second : List Token} {left right : Query.Condition}
      (before : Condition .conjunction around first left) (sort : word.kind = .keyword .andWord)
      (behind : Condition .term around second right) :
      Condition .conjunction around (first ++ word :: second) (.and left right)
  | conjunction {around : Nat} {run : List Token} {condition : Query.Condition}
      (single : Condition .conjunction around run condition) :
      Condition .disjunction around run condition
  | or {around : Nat} {word : Token} {first second : List Token} {left right : Query.Condition}
      (before : Condition .disjunction around first left) (sort : word.kind = .keyword .orWord)
      (behind : Condition .conjunction around second right) :
      Condition .disjunction around (first ++ word :: second) (.or left right)

inductive Filter : List Token → Query.Condition → Prop where
  | mk {word : Token} {run : List Token} {condition : Query.Condition}
      (sort : word.kind = .keyword .whereWord)
      (written : Condition .disjunction 0 run condition) : Filter (word :: run) condition

/-- What an aggregate is taken of; only a plain COUNT may count the matches themselves. -/
inductive Argument : AggregateFunction → Bool → List Token → AggregateArgument → Prop where
  | star {token : Token} (sort : token.kind = .symbol .asterisk) :
      Argument .count false [token] .star
  | property {function : AggregateFunction} {distinct : Bool} {run : List Token}
      {access : PropertyAccess} (written : Access run access) :
      Argument function distinct run (.property access)
  | element {function : AggregateFunction} {distinct : Bool} {run : List Token}
      {identifier : Identifier} (written : Named .identifier run identifier) :
      Argument function distinct run (.element identifier)

def functionWord : AggregateFunction → Keyword
  | .count => .countWord
  | .collect => .collectWord

inductive Aggregate : List Token → Query.Aggregate → Prop where
  | mk {word left right : Token} {first second : List Token} {function : AggregateFunction}
      {distinct : Bool} {argument : AggregateArgument}
      (sort : word.kind = .keyword (functionWord function))
      (opened : left.kind = .symbol .leftParen) (flagged : Flag .distinctWord first distinct)
      (applied : Argument function distinct second argument)
      (closed : right.kind = .symbol .rightParen) :
      Aggregate (word :: left :: (first ++ (second ++ [right]))) { function, distinct, argument }

inductive Expression : List Token → ReturnExpression → Prop where
  | property {run : List Token} {access : PropertyAccess} (written : Access run access) :
      Expression run (.property access)
  | element {run : List Token} {identifier : Identifier}
      (written : Named .identifier run identifier) : Expression run (.element identifier)
  | aggregate {run : List Token} {aggregate : Query.Aggregate} (written : Aggregate run aggregate) :
      Expression run (.aggregate aggregate)

inductive Item : List Token → ReturnItem → Prop where
  | plain {run : List Token} {expression : ReturnExpression} (written : Expression run expression) :
      Item run { expression }
  | named {first second : List Token} {word : Token} {expression : ReturnExpression}
      {name : String} (written : Expression first expression)
      (sort : word.kind = .keyword .asWord) (named : Name second name) :
      Item (first ++ word :: second) { expression, columnAlias := some name }

inductive Projection : List Token → Query.Projection → Prop where
  | mk {first second : List Token} {distinct : Bool} {items : List ReturnItem}
      (flagged : Flag .distinctWord first distinct)
      (listed : Separated (.symbol .comma) Item second items) :
      Projection (first ++ second) { distinct, items }

/-- A run of tokens and the query that it spells. -/
inductive Reading : List Token → DocumentGraph.Query → Prop where
  | mk {opening returning : Token} {first second third : List Token}
      {patterns : List Query.Pattern} {condition : Option Query.Condition}
      {projection : Query.Projection} (opened : opening.kind = .keyword .matchWord)
      (matched : Separated (.symbol .comma) Pattern first patterns)
      (filtered : Optional Filter second condition)
      (returned : returning.kind = .keyword .returnWord) (projected : Projection third projection) :
      Reading (opening :: (first ++ (second ++ returning :: third)))
        { patterns, condition, projection }

end DocumentGraph.Query.Grammar
