namespace DocumentGraph.Text

/-! Cutting texts at separators. -/

/-- The pieces between separating characters; a text without one is one piece. -/
def pieces (separates : Char → Bool) : List Char → List (List Char)
  | [] => [[]]
  | c :: rest =>
      if separates c then [] :: pieces separates rest
      else match pieces separates rest with
        | [] => [[c]]
        | piece :: others => (c :: piece) :: others

def splitOn (separator : Char) (text : List Char) : List (List Char) :=
  pieces (· = separator) text

/-- The texts around the first occurrence of `mark`. -/
def cutAt? (mark : List Char) : List Char → Option (List Char × List Char)
  | [] => if mark.isEmpty then some ([], []) else none
  | c :: rest =>
      match mark.isPrefixOf? (c :: rest) with
      | some behind => some ([], behind)
      | none => (cutAt? mark rest).map fun (front, behind) => (c :: front, behind)

/-- The texts around the last occurrence of a separator. -/
def cutAtLast? {α : Type} [DecidableEq α] (separator : α) (text : List α) :
    Option (List α × List α) :=
  if separator ∈ text then
    let behind := text.reverse.takeWhile (· ≠ separator)
    some ((text.reverse.drop (behind.length + 1)).reverse, behind.reverse)
  else none

def occursIn (part : List Char) : List Char → Bool
  | [] => part.isEmpty
  | c :: rest => part.isPrefixOf (c :: rest) || occursIn part rest

/-- The text without `mark` at its end, if it ends with it. -/
def dropEnd (mark text : List Char) : List Char :=
  (mark.isSuffixOf? text).getD text

/-- The text without `mark` at its front, if it begins with it. -/
def dropFront (mark text : List Char) : List Char :=
  (mark.isPrefixOf? text).getD text

theorem pieces_ne_nil (separates : Char → Bool) (text : List Char) :
    pieces separates text ≠ [] := by
  cases text with
  | nil => simp [pieces]
  | cons c rest =>
      simp only [pieces]
      split
      · simp
      · split <;> simp

end DocumentGraph.Text
