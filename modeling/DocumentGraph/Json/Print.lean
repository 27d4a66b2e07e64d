import DocumentGraph.Json.Basic
import DocumentGraph.Number.Text

namespace DocumentGraph.Json

/-! JSON texts: without blanks, and with one member or item on a line.

Characters of a string stand for themselves except quotes, backslashes and control
characters.  A number that is not finite is written as `null`.
-/

def hexDigit (value : Nat) : Char :=
  Nat.digitChar value

def escapeChar (c : Char) : List Char :=
  match c with
  | '"' => ['\\', '"']
  | '\\' => ['\\', '\\']
  | '\n' => ['\\', 'n']
  | '\r' => ['\\', 'r']
  | '\t' => ['\\', 't']
  | '\x08' => ['\\', 'b']
  | '\x0c' => ['\\', 'f']
  | c =>
      if c.toNat < 32 then
        ['\\', 'u', '0', '0', hexDigit (c.toNat / 16), hexDigit (c.toNat % 16)]
      else [c]

def quote (text : String) : List Char :=
  '"' :: text.toList.flatMap escapeChar ++ ['"']

def scalarText : Json → List Char
  | null => "null".toList
  | boolean true => "true".toList
  | boolean false => "false".toList
  | integer value => (toString value).toList
  | float value => (value.jsonText?.getD "null").toList
  | string value => quote value
  | array _ => "[]".toList
  | object _ => "\x7b\x7d".toList

mutual

def compactChars : Json → List Char
  | array items => '[' :: compactItems items ++ [']']
  | object members => '\x7b' :: compactMembers members ++ ['\x7d']
  | scalar => scalarText scalar

def compactItems : List Json → List Char
  | [] => []
  | [item] => compactChars item
  | item :: items => compactChars item ++ ',' :: compactItems items

def compactMembers : List (String × Json) → List Char
  | [] => []
  | [(key, value)] => quote key ++ ':' :: compactChars value
  | (key, value) :: members =>
      quote key ++ ':' :: compactChars value ++ ',' :: compactMembers members

end

def lineBreak (depth : Nat) : List Char :=
  '\n' :: List.replicate (2 * depth) ' '

mutual

/-- The text of a value whose lines are indented by `depth` steps. -/
def prettyChars (depth : Nat) : Json → List Char
  | array (item :: items) =>
      '[' :: prettyItems (depth + 1) (item :: items) ++ lineBreak depth ++ [']']
  | object (member :: members) =>
      '\x7b' :: prettyMembers (depth + 1) (member :: members) ++ lineBreak depth ++ ['\x7d']
  | scalar => scalarText scalar

def prettyItems (depth : Nat) : List Json → List Char
  | [] => []
  | [item] => lineBreak depth ++ prettyChars depth item
  | item :: items =>
      lineBreak depth ++ prettyChars depth item ++ ',' :: prettyItems depth items

def prettyMembers (depth : Nat) : List (String × Json) → List Char
  | [] => []
  | [(key, value)] => lineBreak depth ++ quote key ++ ':' :: ' ' :: prettyChars depth value
  | (key, value) :: members =>
      lineBreak depth ++ quote key ++ ':' :: ' ' :: prettyChars depth value ++
        ',' :: prettyMembers depth members

end

def compact (value : Json) : String :=
  String.ofList (compactChars value)

def pretty (value : Json) : String :=
  String.ofList (prettyChars 0 value)

end DocumentGraph.Json
