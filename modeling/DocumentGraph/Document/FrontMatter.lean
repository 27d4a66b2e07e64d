import DocumentGraph.Graph.Element
import DocumentGraph.Text.Blank
import DocumentGraph.Text.Numeral
import DocumentGraph.Text.Split

namespace DocumentGraph.Document.FrontMatter

/-! Front matter: `key: value` lines between two fences at the head of a document.

Values are scalars and lists on one line.  Comments, blank lines and lines without a key
are passed over, so nested mappings and lists over several lines leave no trace.
-/

def fence : List Char := ['-', '-', '-']

/-- Front matter without its fences, and the text behind it. -/
structure Parts where
  block : Option (List Char)
  body : List Char
deriving DecidableEq, Repr

/-- The text behind one line break, of either sort, if it begins with one. -/
def dropLineBreak (text : List Char) : List Char :=
  match text with
  | '\r' :: '\n' :: rest => rest
  | '\n' :: rest => rest
  | _ => text

/-- The text behind a fence that stands alone in the first line. -/
def behindFence? (content : List Char) : Option (List Char) := do
  match ← fence.isPrefixOf? content with
  | '\n' :: rest => some rest
  | '\r' :: '\n' :: rest => some rest
  | _ => none

/-- Cuts a document at its fences.  The closing fence begins a line behind the one with
the opening fence; without both there is no front matter. -/
def split (content : List Char) : Parts :=
  match (behindFence? content).bind (Text.cutAt? ('\n' :: fence)) with
  | some (block, behind) =>
      { block := some (Text.dropEnd ['\r'] block), body := dropLineBreak behind }
  | none => { block := none, body := content }

/-- The text between two quotes of the same sort. -/
def quoted? : List Char → Option (List Char)
  | [] => none
  | quote :: rest =>
      if quote = '"' || quote = '\'' then [quote].isSuffixOf? rest else none

def unquote (text : List Char) : List Char :=
  (quoted? text).getD text

/-- The digits in front of and behind a point, if there is one. -/
def decimalParts? (text : List Char) : Option (List Char × Option (List Char)) :=
  match Text.cutAt? ['.'] text with
  | none => if Text.isDigits text then some (text, none) else none
  | some (whole, fraction) =>
      if Text.isDigits whole && Text.isDigits fraction then some (whole, some fraction) else none

/-- A floating-point number, or the integer that it is equal to if that lies strictly between
`-2 ^ 63` and `2 ^ 63`. -/
def collapse (value : Number.Binary64) : Property :=
  match value.toInt? with
  | some integer =>
      if integer.natAbs < Nat.pow 2 63 then .integer (Int64.ofInt integer) else .float value
  | none => .float value

/-- A number in decimal digits, perhaps with a minus sign and a fraction. -/
def number? (text : List Char) : Option Property := do
  let (negative, digits) := match text with
    | '-' :: digits => (true, digits)
    | digits => (false, digits)
  let (whole, fraction) ← decimalParts? digits
  let rounded := collapse (Number.Binary64.ofDecimal negative
    (Text.digitsValue (whole ++ fraction.getD [])) (-((fraction.getD []).length : Int)))
  match fraction with
  | some _ => return rounded
  | none => return ((Text.readInt64? text).map Property.integer).getD rounded

def listItems? (text : List Char) : Option (List String) := do
  let inner ← match text with
    | '[' :: rest => [']'].isSuffixOf? rest
    | _ => none
  if (Text.trim inner).isEmpty then
    return []
  else
    return (Text.splitOn ',' inner).map fun item => String.ofList (unquote (Text.trim item))

def value (raw : List Char) : Property :=
  match String.ofList raw with
  | "" | "~" | "null" => .null
  | "true" | "True" | "TRUE" => .boolean true
  | "false" | "False" | "FALSE" => .boolean false
  | text =>
      match listItems? raw, quoted? raw, number? raw with
      | some items, _, _ => .list items
      | none, some inner, _ => .string (String.ofList inner)
      | none, none, some number => number
      | none, none, none => .string text

def isKey : List Char → Bool
  | [] => false
  | first :: rest =>
      (first.isAlpha || first = '_') && rest.all fun c => c.isAlphanum || c = '_' || c = '-'

/-- Two keys have shorter names in the graph. -/
def propertyName (key : String) : String :=
  match key with
  | "allowed-tools" => "tools"
  | "argument-hint" => "argumentHint"
  | key => key

/-- The property that a line declares, if it declares one. -/
def property? (line : List Char) : Option (String × Property) := do
  let line := Text.trim line
  guard (line.head? ≠ some '#')
  let (key, raw) ← Text.cutAt? [':'] line
  let key := Text.trimEnd key
  guard (isKey key)
  return (propertyName (String.ofList key), value (Text.trim raw))

def properties (content : List Char) : PropertyBag :=
  match (split content).block with
  | none => []
  | some block => Ordered.ofPairs ((Text.splitOn '\n' block).filterMap property?)

end DocumentGraph.Document.FrontMatter
