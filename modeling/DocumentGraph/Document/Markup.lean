import DocumentGraph.Text.Blank
import DocumentGraph.Text.Split

namespace DocumentGraph.Document

/-! Headings and links in Markdown text.

Links are found from left to right and do not overlap: the search goes on behind a link,
and behind the bracket that begins none.
-/

/-- The text of a line that is a first-level heading, as the group of the pattern `^#[ \t]+(.+)$`
matches it, without the blanks around it. -/
def heading? : List Char → Option (List Char)
  | '#' :: blank :: c :: rest =>
      if blank = ' ' || blank = '\t' then some (Text.trim (c :: rest)) else none
  | _ => none

/-- The text of the first first-level heading, unless it is blank. -/
def title? (content : List Char) : Option (List Char) :=
  match (Text.splitOn '\n' content).findSome? heading? with
  | some [] => none
  | found => found

/-- A link between doubled brackets, perhaps with a label behind a bar. -/
structure WikiLink where
  target : List Char
  label : Option (List Char)
deriving DecidableEq, Repr

/-- A link with its text between brackets and a relative path between parentheses. -/
structure PathLink where
  text : List Char
  path : List Char
deriving DecidableEq, Repr

/-- The link that two opening brackets in front of `text` begin, as the pattern
`\[\[([^\]|]+)(?:\|([^\]]+))?\]\]` matches it, and the number of its characters in `text`. -/
def wikiLinkAt? (text : List Char) : Option (WikiLink × Nat) :=
  let target := text.takeWhile fun c => c ≠ ']' && c ≠ '|'
  if target.isEmpty then none
  else match text.drop target.length with
    | ']' :: ']' :: _ => some ({ target, label := none }, target.length + 2)
    | '|' :: more =>
        let label := more.takeWhile (· ≠ ']')
        if label.isEmpty then none
        else match more.drop label.length with
          | ']' :: ']' :: _ =>
              some ({ target, label := some label }, target.length + label.length + 3)
          | _ => none
    | _ => none

def wikiLinks : List Char → List WikiLink
  | '[' :: '[' :: text =>
      match wikiLinkAt? text with
      | some (link, size) => link :: wikiLinks (text.drop size)
      | none => wikiLinks ('[' :: text)
  | _ :: text => wikiLinks text
  | [] => []
termination_by text => text.length
decreasing_by all_goals simp only [List.length_drop, List.length_cons]; omega

/-- A path that the group `(\.[^)]+\.md)` matches: it begins with a dot and leads to a Markdown
file. -/
def isDocumentPath (path : List Char) : Bool :=
  path.head? = some '.' && ['.', 'm', 'd'].isSuffixOf path && 5 ≤ path.length

/-- The link that an opening bracket in front of `text` begins, as the pattern
`\[([^\]]+)\]\((\.[^)]+\.md)\)` matches it, and the number of its characters in `text`. -/
def pathLinkAt? (text : List Char) : Option (PathLink × Nat) :=
  let label := text.takeWhile (· ≠ ']')
  if label.isEmpty then none
  else match text.drop label.length with
    | ']' :: '(' :: more =>
        let path := more.takeWhile (· ≠ ')')
        if isDocumentPath path && more.drop path.length ≠ [] then
          some ({ text := label, path }, label.length + path.length + 3)
        else none
    | _ => none

def pathLinks : List Char → List PathLink
  | '[' :: text =>
      match pathLinkAt? text with
      | some (link, size) => link :: pathLinks (text.drop size)
      | none => pathLinks text
  | _ :: text => pathLinks text
  | [] => []
termination_by text => text.length
decreasing_by all_goals simp only [List.length_drop, List.length_cons]; omega

end DocumentGraph.Document
