import DocumentGraph.Text.LetterCase.Table

namespace DocumentGraph.Text

/-! Lower-case forms of texts.

Every character is lowered for itself, except that a capital sigma becomes a final sigma at
the end of a word: behind a cased character, and not before one, case-ignorable characters
being passed over on both sides.
-/

def inRanges (ranges : List (Nat × Nat)) (c : Char) : Bool :=
  ranges.any fun (first, last) => first ≤ c.toNat && c.toNat ≤ last

def isCased (c : Char) : Bool :=
  inRanges casedRanges c

def isCaseIgnorable (c : Char) : Bool :=
  inRanges caseIgnorableRanges c

/-- The lower-case form of a character by itself.  The dotted capital I alone becomes two
characters. -/
def lowerChar (c : Char) : List Char :=
  if c.toNat < 128 then [c.toLower]
  else if c = '\u0130' then ['i', '\u0307']
  else
    match lowerCaseRanges.find? fun (first, last, step, _) =>
        first ≤ c.toNat && c.toNat ≤ last && (c.toNat - first) % step = 0 with
    | some (_, _, _, difference) => [Char.ofNat (c.toNat + difference).toNat]
    | none => [c]

/-- Whether the nearest character that is not case-ignorable is cased. -/
def nearestIsCased (text : List Char) : Bool :=
  (text.find? fun c => !isCaseIgnorable c).any isCased

/-- The lower-case form of the text behind `before`, which is given in reverse. -/
def lowerBehind (before : List Char) : List Char → List Char
  | [] => []
  | c :: rest =>
      let lowered :=
        if c = '\u03a3' then
          if nearestIsCased before && !nearestIsCased rest then ['\u03c2'] else ['\u03c3']
        else lowerChar c
      lowered ++ lowerBehind (c :: before) rest

def lowerCase (text : List Char) : List Char :=
  lowerBehind [] text

end DocumentGraph.Text

namespace DocumentGraph

def lowerCase (text : String) : String :=
  String.ofList (Text.lowerCase text.toList)

end DocumentGraph
