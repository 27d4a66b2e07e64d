import DocumentGraph.Query.Error
import DocumentGraph.Query.Token

namespace DocumentGraph.Query

/-! From a query text to its tokens.

A text is a row of lexemes with trivia (blanks and line comments) around them.  What a
character begins depends on a little context: how many brackets of each sort are open,
and the kind of the token before.  `Context.lexeme` reads one lexeme and says how many
characters it takes behind its first one; `Context.trivia` says how many characters are
to be skipped before the next lexeme.
-/

/-- What decides how the next characters are read. -/
structure Context where
  parens : Nat := 0
  brackets : Nat := 0
  braces : Nat := 0
  last : Option Kind := none
deriving DecidableEq, Repr

/-- A lexeme without its first character and its place. -/
structure Lexeme where
  kind : Kind
  text : List Char
  /-- How many characters belong to the lexeme behind its first one. -/
  extra : Nat
deriving DecidableEq, Repr

inductive LexicalFault where
  | noLexeme
  | unclosedString
deriving DecidableEq, Repr

def isNameStart (c : Char) : Bool :=
  c.isAlpha || c = '_'

def isNamePart (c : Char) : Bool :=
  c.isAlphanum || c = '_' || c = '-'

def isSpace (c : Char) : Bool :=
  c = ' ' || c = '\t' || c = '\r' || c = '\n'

/-- The contents of a string whose opening quote has been read, and how many characters
they take together with the closing quote.  A backslash protects a quote and a
backslash, and stands for itself before anything else. -/
def quotedContents : List Char → Option (List Char × Nat)
  | [] => none
  | '"' :: _ => some ([], 1)
  | '\\' :: '"' :: rest => (quotedContents rest).map fun (value, size) => ('"' :: value, size + 2)
  | '\\' :: '\\' :: rest =>
      (quotedContents rest).map fun (value, size) => ('\\' :: value, size + 2)
  | c :: rest => (quotedContents rest).map fun (value, size) => (c :: value, size + 1)

namespace Context

/-- The context behind a token of the given kind.  A closing bracket without a partner
leaves its count at zero. -/
def follow (context : Context) (kind : Kind) : Context :=
  let behind := { context with last := some kind }
  match kind with
  | .symbol .leftParen => { behind with parens := context.parens + 1 }
  | .symbol .rightParen => { behind with parens := context.parens - 1 }
  | .symbol .leftBracket => { behind with brackets := context.brackets + 1 }
  | .symbol .rightBracket => { behind with brackets := context.brackets - 1 }
  | .symbol .leftBrace => { behind with braces := context.braces + 1 }
  | .symbol .rightBrace => { behind with braces := context.braces - 1 }
  | _ => behind

/-- Behind a node or a relationship a dash may begin an arrow, never a comment. -/
def afterPattern (context : Context) : Bool :=
  context.last.any Kind.closesPattern

def allowsComment (context : Context) : Bool :=
  !context.afterPattern && context.brackets == 0

/-- Inside a node or a relationship, but not inside its property map, a colon with a name
behind it is a label. -/
def allowsLabel (context : Context) : Bool :=
  context.parens + context.brackets != 0 && context.braces == 0

/-- The number of characters to skip.  A comment begins with two dashes, where comments
are allowed, and lasts until the end of its line. -/
def trivia (context : Context) (inComment : Bool) : List Char → Nat
  | [] => 0
  | c :: rest =>
      if inComment then
        1 + context.trivia (c != '\n') rest
      else if isSpace c then
        1 + context.trivia false rest
      else if c = '-' && rest.head? = some '-' && context.allowsComment then
        1 + context.trivia true rest
      else 0

/-- The kind of a word: a property behind a dot may spell a reserved word. -/
def wordKind (context : Context) (word : List Char) : Kind :=
  if context.last = some (.symbol .dot) then .identifier
  else match Keyword.ofWord? word with
    | some keyword => .keyword keyword
    | none => .identifier

/-- The symbol that begins with `first`, of the longest possible spelling. -/
def symbol? (context : Context) (first : Char) (next : Option Char) : Option Symbol :=
  match first with
  | '(' => some .leftParen
  | ')' => some .rightParen
  | '[' => some .leftBracket
  | ']' => some .rightBracket
  | '\x7b' => some .leftBrace
  | '\x7d' => some .rightBrace
  | ',' => some .comma
  | '*' => some .asterisk
  | '=' => some .equals
  | ':' => some .colon
  | '.' => if next = some '.' then some .dotDot else some .dot
  | '-' => if next = some '>' && context.afterPattern then some .rightArrow else some .dash
  | '<' =>
      if next = some '-' && context.afterPattern then some .leftArrow
      else if next = some '=' then some .lessEqual
      else if next = some '>' then some .notEquals
      else some .lessThan
  | '>' => if next = some '=' then some .greaterEqual else some .greaterThan
  | _ => none

def lexeme (context : Context) (first : Char) (rest : List Char) :
    Except LexicalFault Lexeme :=
  if first = '"' then
    match quotedContents rest with
    | none => .error .unclosedString
    | some (value, size) => .ok { kind := .string, text := value, extra := size }
  else if first.isDigit then
    let digits := rest.takeWhile Char.isDigit
    .ok { kind := .integer, text := first :: digits, extra := digits.length }
  else if isNameStart first then
    let tail := rest.takeWhile isNamePart
    .ok { kind := context.wordKind (first :: tail), text := first :: tail, extra := tail.length }
  else if first = ':' && context.allowsLabel && rest.head?.any isNameStart then
    let name := rest.takeWhile isNamePart
    .ok { kind := .label, text := name, extra := name.length }
  else
    match context.symbol? first rest.head? with
    | none => .error .noLexeme
    | some symbol =>
        .ok { kind := .symbol symbol, text := symbol.spelling.toList
              extra := symbol.spelling.length - 1 }

end Context

def LexicalFault.error (first : Char) (position : Position) : LexicalFault → QueryError
  | noLexeme => .unexpectedCharacter first position
  | unclosedString => .unterminatedString position

/-- The tokens of `input`, the end of the text included, when `input` begins at
`position` in the given context. -/
def tokensFrom (context : Context) (position : Position) (input : List Char) :
    Except QueryError (List Token) :=
  let skipped := context.trivia false input
  let place := position.after (input.take skipped)
  match _ : input.drop skipped with
  | [] => .ok [Token.endAt place]
  | first :: rest =>
      match context.lexeme first rest with
      | .error fault => .error (fault.error first place)
      | .ok lexeme =>
          match tokensFrom (context.follow lexeme.kind)
              (place.after (first :: rest.take lexeme.extra)) (rest.drop lexeme.extra) with
          | .error error => .error error
          | .ok tokens =>
              .ok ({ kind := lexeme.kind, text := String.ofList lexeme.text, position := place }
                :: tokens)
termination_by input.length
decreasing_by
  have shorter := congrArg List.length ‹input.drop _ = first :: rest›
  simp only [List.length_drop, List.length_cons] at shorter ⊢
  omega

/-- The tokens of a query text; the last one marks its end. -/
def tokenize (source : String) : Except QueryError (List Token) :=
  tokensFrom {} Position.start source.toList

end DocumentGraph.Query
