import DocumentGraph.Query.Position

namespace DocumentGraph.Query

/-! Tokens of the query language.

A kind is a reserved word, one of the four open classes (names, labels, strings,
whole numbers), a symbol, or the end of the text.  `Keyword.all` and `Symbol.all`
list the closed classes in the order in which the language defines them.
-/

inductive Keyword where
  | matchWord | whereWord | returnWord | andWord | orWord | notWord | asWord
  | distinctWord | containsWord | startsWord | withWord | endsWord | isWord
  | nullWord | trueWord | falseWord | countWord | collectWord
deriving DecidableEq, Repr

namespace Keyword

def all : List Keyword :=
  [matchWord, whereWord, returnWord, andWord, orWord, notWord, asWord, distinctWord,
    containsWord, startsWord, withWord, endsWord, isWord, nullWord, trueWord, falseWord,
    countWord, collectWord]

/-- How the word is written in messages; a query may write it in any case. -/
def spelling : Keyword → String
  | matchWord => "MATCH"
  | whereWord => "WHERE"
  | returnWord => "RETURN"
  | andWord => "AND"
  | orWord => "OR"
  | notWord => "NOT"
  | asWord => "AS"
  | distinctWord => "DISTINCT"
  | containsWord => "CONTAINS"
  | startsWord => "STARTS"
  | withWord => "WITH"
  | endsWord => "ENDS"
  | isWord => "IS"
  | nullWord => "NULL"
  | trueWord => "TRUE"
  | falseWord => "FALSE"
  | countWord => "COUNT"
  | collectWord => "COLLECT"

/-- The name of the word's kind in a token listing. -/
def name : Keyword → String
  | matchWord => "Match"
  | whereWord => "Where"
  | returnWord => "Return"
  | andWord => "And"
  | orWord => "Or"
  | notWord => "Not"
  | asWord => "As"
  | distinctWord => "Distinct"
  | containsWord => "Contains"
  | startsWord => "Starts"
  | withWord => "With"
  | endsWord => "Ends"
  | isWord => "Is"
  | nullWord => "Null"
  | trueWord => "True"
  | falseWord => "False"
  | countWord => "Count"
  | collectWord => "Collect"

/-- The reserved word that `word` spells, in any mixture of cases of the twenty-six
Latin letters. -/
def ofWord? (word : List Char) : Option Keyword :=
  all.find? fun keyword => keyword.spelling.toList = word.map Char.toUpper

theorem mem_all (keyword : Keyword) : keyword ∈ all := by
  cases keyword <;> decide

end Keyword

inductive Symbol where
  | leftParen | rightParen | leftBracket | rightBracket | leftBrace | rightBrace
  | colon | comma | dot | dotDot | asterisk
  | dash | rightArrow | leftArrow
  | equals | notEquals | lessThan | lessEqual | greaterThan | greaterEqual
deriving DecidableEq, Repr

namespace Symbol

def all : List Symbol :=
  [leftParen, rightParen, leftBracket, rightBracket, leftBrace, rightBrace, colon, comma,
    dot, dotDot, asterisk, dash, rightArrow, leftArrow, equals, notEquals, lessThan,
    lessEqual, greaterThan, greaterEqual]

def spelling : Symbol → String
  | leftParen => "("
  | rightParen => ")"
  | leftBracket => "["
  | rightBracket => "]"
  | leftBrace => "\x7b"
  | rightBrace => "\x7d"
  | colon => ":"
  | comma => ","
  | dot => "."
  | dotDot => ".."
  | asterisk => "*"
  | dash => "-"
  | rightArrow => "->"
  | leftArrow => "<-"
  | equals => "="
  | notEquals => "<>"
  | lessThan => "<"
  | lessEqual => "<="
  | greaterThan => ">"
  | greaterEqual => ">="

def name : Symbol → String
  | leftParen => "LeftParen"
  | rightParen => "RightParen"
  | leftBracket => "LeftBracket"
  | rightBracket => "RightBracket"
  | leftBrace => "LeftBrace"
  | rightBrace => "RightBrace"
  | colon => "Colon"
  | comma => "Comma"
  | dot => "Dot"
  | dotDot => "DotDot"
  | asterisk => "Asterisk"
  | dash => "Dash"
  | rightArrow => "RightArrow"
  | leftArrow => "LeftArrow"
  | equals => "Equals"
  | notEquals => "NotEquals"
  | lessThan => "LessThan"
  | lessEqual => "LessEqual"
  | greaterThan => "GreaterThan"
  | greaterEqual => "GreaterEqual"

theorem mem_all (symbol : Symbol) : symbol ∈ all := by
  cases symbol <;> decide

end Symbol

inductive Kind where
  | keyword (word : Keyword)
  | identifier
  | label
  | string
  | integer
  | symbol (mark : Symbol)
  | endOfText
deriving DecidableEq, Repr

namespace Kind

def all : List Kind :=
  Keyword.all.map keyword ++ [identifier, label, string, integer] ++
    Symbol.all.map symbol ++ [endOfText]

def isKeyword : Kind → Bool
  | keyword _ => true
  | _ => false

def name : Kind → String
  | keyword word => word.name
  | identifier => "Identifier"
  | label => "Label"
  | string => "String"
  | integer => "Integer"
  | symbol mark => mark.name
  | endOfText => "Eof"

/-- How messages speak of the kind in general. -/
def description : Kind → String
  | keyword word => word.spelling
  | identifier => "identifier"
  | label => "label"
  | string => "string"
  | integer => "integer"
  | symbol mark => "'" ++ mark.spelling ++ "'"
  | endOfText => "end of input"

/-- Only a bracket that ends a node or a relationship can be followed by an arrow. -/
def closesPattern (kind : Kind) : Bool :=
  kind = symbol .rightParen || kind = symbol .rightBracket

theorem mem_all (kind : Kind) : kind ∈ all := by
  cases kind with
  | keyword word => simp [all, Keyword.mem_all]
  | symbol mark => simp [all, Symbol.mem_all]
  | _ => simp [all]

end Kind

/-- A token.  `text` is the token as written, except that a string's text is its
contents and a label's text is the name behind the colon. -/
structure Token where
  kind : Kind
  text : String
  position : Position
deriving DecidableEq, Repr

namespace Token

def endAt (position : Position) : Token :=
  { kind := .endOfText, text := "", position }

/-- How messages speak of this very token. -/
def describe (token : Token) : String :=
  match token.kind with
  | .endOfText => "end of input"
  | .string => "string \"" ++ token.text ++ "\""
  | .label => "label :" ++ token.text
  | _ => "'" ++ token.text ++ "'"

end Token

end DocumentGraph.Query
