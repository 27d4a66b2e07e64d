import DocumentGraph.Proofs.Document.Fallback
import DocumentGraph.Proofs.Document.Fence
import Mathlib.Data.List.TakeWhile

namespace DocumentGraph.Document

/-! Titles that are not declared.

The title is looked for in the whole document.  So a comment of the front matter that looks like a
heading comes before every heading of the body, and what follows the closing fence on its line is no
heading.
-/

open FrontMatter (fence split LineEnd)

variable {front behind : List Char}

/-- The text of the first first-level heading, blank or not. -/
def firstHeading? (text : List Char) : Option (List Char) :=
  (Text.splitOn '\n' text).findSome? heading?

/-- The part of a body whose lines are lines of the document.  A body that does not begin a line
begins on the line of the closing fence. -/
def wholeLines (front body : List Char) : List Char :=
  if front.getLast?.all (· = '\n') then body else body.dropWhile (· ≠ '\n')

theorem title?_eq (text : List Char) : title? text = (firstHeading? text).filter (· ≠ []) := by
  unfold title? firstHeading?
  cases (Text.splitOn '\n' text).findSome? heading? with
  | none => rfl
  | some title =>
      cases title with
      | nil => rfl
      | cons c rest => rfl

theorem firstHeading?_append_cons (front behind : List Char) :
    firstHeading? (front ++ '\n' :: behind) =
      (firstHeading? front).or (firstHeading? behind) := by
  unfold firstHeading?
  rw [Text.splitOn_eq, Text.splitOn_eq, Text.splitOn_eq, List.splitOn_append_cons_self,
    List.findSome?_append]

theorem firstHeading?_newline (behind : List Char) :
    firstHeading? ('\n' :: behind) = firstHeading? behind :=
  firstHeading?_append_cons [] behind

/-- The line of a fence is no heading, whatever follows the fence. -/
theorem firstHeading?_fence (behind : List Char) :
    firstHeading? (fence ++ behind) = firstHeading? (behind.dropWhile (· ≠ '\n')) := by
  have line : '\n' ∉ fence ++ behind.takeWhile (· ≠ '\n') := by
    intro member
    rcases List.mem_append.mp member with within | later
    · revert within
      decide
    · simpa using List.mem_takeWhile_imp later
  have noHeading : firstHeading? (fence ++ behind.takeWhile (· ≠ '\n')) = none := by
    rw [firstHeading?, Text.splitOn_of_not_mem line]
    rfl
  have whole : fence ++ behind =
      (fence ++ behind.takeWhile (· ≠ '\n')) ++ behind.dropWhile (· ≠ '\n') := by
    rw [List.append_assoc, List.takeWhile_append_dropWhile]
  have begins := List.head?_dropWhile_not (· ≠ '\n') behind
  rw [whole]
  cases rest : behind.dropWhile (· ≠ '\n') with
  | nil =>
      rw [List.append_nil, noHeading]
      rfl
  | cons c more =>
      rw [rest] at begins
      obtain rfl : c = '\n' := by simpa using begins
      rw [firstHeading?_append_cons, noHeading, Option.none_or, firstHeading?_newline]

/-- What stands in front of the body has the headings in front of the closing fence, and the whole
lines of the body have those behind it. -/
theorem firstHeading?_closed {opened : List Char}
    (whole : opened ++ '\n' :: (fence ++ behind) = front ++ FrontMatter.dropLineBreak behind) :
    firstHeading? opened = firstHeading? front ∧
      firstHeading? (behind.dropWhile (· ≠ '\n')) =
        firstHeading? (wholeLines front (FrontMatter.dropLineBreak behind)) := by
  rcases FrontMatter.dropLineBreak_cases behind with kept | ⟨ending, dropped⟩
  · rw [kept] at whole ⊢
    have same : front ++ behind = (opened ++ '\n' :: fence) ++ behind := by simp [← whole]
    obtain rfl := List.append_cancel_right same
    have nothing : firstHeading? fence = none := rfl
    have begun : wholeLines (opened ++ '\n' :: fence) behind = behind.dropWhile (· ≠ '\n') :=
      if_neg (by simp [fence, List.getLast?_append])
    rw [firstHeading?_append_cons, nothing, Option.or_none, begun]
    exact ⟨rfl, rfl⟩
  · generalize FrontMatter.dropLineBreak behind = body at dropped whole ⊢
    subst dropped
    have same : front ++ body = (opened ++ '\n' :: (fence ++ ending.text)) ++ body := by
      simp [← whole]
    obtain rfl := List.append_cancel_right same
    have nothing : firstHeading? (fence ++ ending.text) = none := by cases ending <;> rfl
    have ended : opened ++ '\n' :: (fence ++ ending.text) =
        (opened ++ '\n' :: (fence ++ ending.lead)) ++ ['\n'] := by simp [LineEnd.text]
    have alone : wholeLines (opened ++ '\n' :: (fence ++ ending.text)) body = body :=
      if_pos (by rw [ended, List.getLast?_concat]; rfl)
    have later : firstHeading? ((ending.text ++ body).dropWhile (· ≠ '\n')) =
        firstHeading? body := by
      cases ending <;> exact firstHeading?_newline body
    rw [firstHeading?_append_cons, nothing, Option.or_none, alone]
    exact ⟨rfl, later⟩

/-- The first heading stands in front of the body or in its whole lines. -/
theorem firstHeading?_split {content : List Char}
    (whole : content = front ++ (split content).body) :
    firstHeading? content =
      (firstHeading? front).or (firstHeading? (wholeLines front (split content).body)) := by
  rcases FrontMatter.split_cases content with parts | ⟨ending, inner, behind, shape, parts⟩
  · rw [parts] at whole ⊢
    obtain rfl := List.self_eq_append_left.mp whole
    rfl
  · have body : (split content).body = FrontMatter.dropLineBreak behind := by rw [parts]
    have closed : content = (fence ++ (ending.text ++ inner)) ++ '\n' :: (fence ++ behind) := by
      rw [shape]
      simp only [List.append_assoc]
    rw [body, closed] at whole
    obtain ⟨before, later⟩ := firstHeading?_closed whole
    rw [body, ← before, ← later, ← firstHeading?_fence, ← firstHeading?_append_cons, ← closed]

theorem title?_split {content : List Char} (whole : content = front ++ (split content).body) :
    title? content = if (firstHeading? front).isSome then title? front
      else title? (wholeLines front (split content).body) := by
  rw [title?_eq, title?_eq, title?_eq, firstHeading?_split whole]
  cases firstHeading? front with
  | none => rfl
  | some title => rfl

theorem lookup_putProperty_of_ne {key wanted : String} (other : wanted ≠ key) (value : Property)
    (node : Node) :
    (node.putProperty key value).properties.lookup wanted = node.properties.lookup wanted :=
  Ordered.lookup_put_of_ne other value node.properties

theorem lookup_fillMissing_of_ne {key wanted : String} (other : wanted ≠ key)
    (value : Option Property) (node : Node) :
    (fillMissing key value node).properties.lookup wanted = node.properties.lookup wanted := by
  cases value with
  | none => rw [fillMissing_none]
  | some value =>
      rw [fillMissing_some]
      split
      · exact lookup_putProperty_of_ne other value node
      · rfl

theorem lookup_fillMissing {key : String} {node : Node} (value : Option Property)
    (blank : (node.properties.lookup key).all Property.isBlank = true) :
    (fillMissing key value node).properties.lookup key =
      value.or (node.properties.lookup key) := by
  cases value with
  | none => rw [fillMissing_none, Option.none_or]
  | some value =>
      rw [fillMissing_some, if_pos blank, Option.some_or]
      exact Ordered.lookup_put_self key value node.properties

/-- A title that is not declared is the first heading in front of the body, or else the first one
in the whole lines of the body. -/
theorem lookup_title_documentNode (options : Options) (skill : String) (path : List String)
    {content : String} {front : List Char}
    (undeclared :
      ((FrontMatter.properties content.toList).lookup "title").all Property.isBlank = true)
    (whole : content.toList = front ++ (split content.toList).body) :
    (documentNode options skill path content).properties.lookup "title" =
      ((if (firstHeading? front).isSome then title? front
        else title? (wholeLines front (split content.toList).body)).map fun title =>
          Property.string (String.ofList title)).or
        ((FrontMatter.properties content.toList).lookup "title") := by
  have declared (name type : Option Property) (path : Property) (node : Node) :
      (fillMissing "type" type (fillMissing "name" name
        ((node.putProperty "skill" (.string skill)).putProperty "path" path))).properties.lookup
          "title" = node.properties.lookup "title" := by
    rw [lookup_fillMissing_of_ne (by decide), lookup_fillMissing_of_ne (by decide),
      lookup_putProperty_of_ne (by decide), lookup_putProperty_of_ne (by decide)]
  rw [← title?_split whole]
  unfold documentNode
  rw [lookup_fillMissing _ (by rw [declared]; exact undeclared), declared]

/-- A comment behind an empty title is the title, and a heading on the line of the closing fence is
none. -/
theorem lookup_title_documentNode_emptyTitle :
    (documentNode {} "alpha" ["alpha", "nodes", "intro.md"]
      "---\ntitle:\n# comment\n---\n# Title\n").properties.lookup "title" =
        some (.string "comment") ∧
    (documentNode {} "alpha" ["alpha", "nodes", "intro.md"]
      "---\ntitle:\n---# Title\n").properties.lookup "title" = some .null := by
  have comment : "---\ntitle:\n# comment\n---\n# Title\n".toList =
      "---\ntitle:\n# comment\n---\n".toList ++
        (split "---\ntitle:\n# comment\n---\n# Title\n".toList).body := by decide +kernel
  have onFence : "---\ntitle:\n---# Title\n".toList =
      "---\ntitle:\n---".toList ++ (split "---\ntitle:\n---# Title\n".toList).body := by
    decide +kernel
  constructor
  · rw [lookup_title_documentNode {} "alpha" _ (by decide +kernel) comment]
    decide +kernel
  · rw [lookup_title_documentNode {} "alpha" _ (by decide +kernel) onFence]
    decide +kernel

/-- The title of the body is not the title of the document. -/
theorem lookup_title_documentNode_comment :
    title? (split "---\n# comment\n---\n# Title\n".toList).body = some "Title".toList ∧
      (documentNode {} "alpha" ["alpha", "nodes", "intro.md"]
        "---\n# comment\n---\n# Title\n").properties.lookup "title" =
          some (.string "comment") := by
  decide +kernel

end DocumentGraph.Document
