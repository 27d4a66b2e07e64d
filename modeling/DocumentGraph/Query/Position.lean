namespace DocumentGraph.Query

/-! Places in a query text.

The text is read one character at a time and `Position.advance` accounts for one
character, so the position behind a stretch of text depends on its characters
alone (`after_append`).
-/

/-- An offset in bytes, a line counted from one, and a column counted from one in
characters. -/
structure Position where
  offset : Nat := 0
  line : Nat := 0
  column : Nat := 0
deriving DecidableEq, Repr, Inhabited

namespace Position

def start : Position :=
  { offset := 0, line := 1, column := 1 }

def advance (position : Position) (c : Char) : Position :=
  if c = '\n' then
    { offset := position.offset + c.utf8Size, line := position.line + 1, column := 1 }
  else
    { position with
      offset := position.offset + c.utf8Size
      column := position.column + 1 }

/-- The place behind `text`, when `text` begins at `position`. -/
def after (position : Position) (text : List Char) : Position :=
  text.foldl advance position

@[simp] theorem after_nil (position : Position) : position.after [] = position := rfl

@[simp] theorem after_cons (position : Position) (c : Char) (text : List Char) :
    position.after (c :: text) = (position.advance c).after text := rfl

theorem after_append (position : Position) (left right : List Char) :
    position.after (left ++ right) = (position.after left).after right := by
  simp [after, List.foldl_append]

end Position

end DocumentGraph.Query
