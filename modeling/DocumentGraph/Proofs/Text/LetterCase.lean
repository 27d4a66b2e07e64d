import DocumentGraph.Text.LetterCase
import Mathlib.Data.List.Infix

namespace DocumentGraph.Text

/-! Lower-case forms of parts of texts.

A part of a text is lowered as it would be by itself, but for its capital sigmas.  Whether one of
them ends a word is a matter of the nearest characters that are not case-ignorable, and at the
edges of the part these stand outside of it.
-/

variable {before behind front part rear text : List Char}

/-- Whether a letter between two texts is the last of a word. -/
def endsWord (before behind : List Char) : Bool :=
  nearestIsCased before.reverse && !nearestIsCased behind

/-- The capital sigmas of a part of a text end a word of the text exactly if they end a word of the
part. -/
def KeepsSigmas (before part behind : List Char) : Prop :=
  ∀ front rear, part = front ++ '\u03a3' :: rear →
    endsWord (before ++ front) (rear ++ behind) = endsWord front rear

theorem keepsSigmas_of_not_mem (absent : '\u03a3' ∉ part) (before behind : List Char) :
    KeepsSigmas before part behind := by
  intro front rear split
  rw [split] at absent
  exact absurd (List.mem_append_right front List.mem_cons_self) absent

/-- The lower-case form of a character between two texts. -/
def lowerAt (before behind : List Char) (c : Char) : List Char :=
  if c = '\u03a3' then if endsWord before behind then ['\u03c2'] else ['\u03c3'] else lowerChar c

theorem length_lowerAt (before behind before' behind' : List Char) (c : Char) :
    (lowerAt before behind c).length = (lowerAt before' behind' c).length := by
  unfold lowerAt
  split
  · split <;> split <;> rfl
  · rfl

theorem lowerAt_eq_iff {before' behind' : List Char} {c : Char} :
    lowerAt before behind c = lowerAt before' behind' c ↔
      (c = '\u03a3' → endsWord before behind = endsWord before' behind') := by
  unfold lowerAt
  split
  case isTrue sigma =>
    cases endsWord before behind <;> cases endsWord before' behind' <;> simp [sigma]
  case isFalse other => simp [other]

/-- The lower-case form of a part of a text. -/
def lowerWithin (before behind : List Char) : List Char → List Char
  | [] => []
  | c :: rest => lowerAt before (rest ++ behind) c ++ lowerWithin (before ++ [c]) behind rest

theorem lowerBehind_eq (before text : List Char) :
    lowerBehind before text = lowerWithin before.reverse [] text := by
  induction text generalizing before with
  | nil => rfl
  | cons c rest ih =>
      rw [lowerBehind, lowerWithin, ih, List.reverse_cons, lowerAt, endsWord, List.reverse_reverse,
        List.append_nil]

theorem lowerCase_eq (text : List Char) : lowerCase text = lowerWithin [] [] text :=
  lowerBehind_eq [] text

theorem lowerWithin_append (before behind part rest : List Char) :
    lowerWithin before behind (part ++ rest) =
      lowerWithin before (rest ++ behind) part ++ lowerWithin (before ++ part) behind rest := by
  induction part generalizing before with
  | nil => rw [List.append_nil]; rfl
  | cons c part ih =>
      simp only [List.cons_append, lowerWithin, ih, List.append_assoc, List.nil_append]

theorem length_lowerWithin (before behind before' behind' part : List Char) :
    (lowerWithin before behind part).length = (lowerWithin before' behind' part).length := by
  induction part generalizing before before' with
  | nil => rfl
  | cons c rest ih =>
      rw [lowerWithin, lowerWithin, List.length_append, List.length_append,
        length_lowerAt before (rest ++ behind) before' (rest ++ behind'), ih]

theorem lowerWithin_eq_iff {before' behind' : List Char} :
    lowerWithin before behind part = lowerWithin before' behind' part ↔
      ∀ front rear, part = front ++ '\u03a3' :: rear →
        endsWord (before ++ front) (rear ++ behind) =
          endsWord (before' ++ front) (rear ++ behind') := by
  induction part generalizing before before' with
  | nil => simp [lowerWithin]
  | cons c rest ih =>
      -- the forms of one character are equally long, so the rests begin at the same place
      have aligned := length_lowerAt before (rest ++ behind) before' (rest ++ behind') c
      rw [lowerWithin, lowerWithin]
      constructor
      · intro same front rear split
        obtain ⟨first, later⟩ := List.append_inj same aligned
        cases front with
        | nil =>
            obtain ⟨rfl, rfl⟩ := List.cons.inj split
            rw [List.append_nil, List.append_nil]
            exact lowerAt_eq_iff.mp first rfl
        | cons d front =>
            obtain ⟨rfl, rfl⟩ := List.cons.inj split
            have kept := ih.mp later front rear rfl
            rwa [List.append_assoc, List.append_assoc] at kept
      · intro kept
        congr 1
        · refine lowerAt_eq_iff.mpr fun sigma => ?_
          have here := kept [] rest (by rw [sigma, List.nil_append])
          rwa [List.append_nil, List.append_nil] at here
        · refine ih.mpr fun front rear split => ?_
          have later := kept (c :: front) rear (by rw [split, List.cons_append])
          rwa [List.append_assoc, List.append_assoc]

theorem lowerWithin_eq_lowerCase_iff :
    lowerWithin before behind part = lowerCase part ↔ KeepsSigmas before part behind := by
  rw [lowerCase_eq, lowerWithin_eq_iff]
  simp only [KeepsSigmas, List.nil_append, List.append_nil]

instance (before part behind : List Char) : Decidable (KeepsSigmas before part behind) :=
  decidable_of_iff (lowerWithin before behind part = lowerCase part) lowerWithin_eq_lowerCase_iff

theorem lowerCase_prefix_iff :
    lowerCase part <+: lowerCase (part ++ behind) ↔ KeepsSigmas [] part behind := by
  rw [lowerCase_eq (part ++ behind), lowerWithin_append, List.append_nil,
    ← lowerWithin_eq_lowerCase_iff]
  have aligned := length_lowerWithin [] behind [] [] part
  rw [← lowerCase_eq part] at aligned
  constructor
  · intro ⟨rest, same⟩
    exact (List.append_inj same aligned.symm).1.symm
  · intro same
    rw [same]
    exact List.prefix_append _ _

theorem lowerCase_suffix_iff :
    lowerCase part <:+ lowerCase (before ++ part) ↔ KeepsSigmas before part [] := by
  rw [lowerCase_eq (before ++ part), lowerWithin_append, List.nil_append,
    ← lowerWithin_eq_lowerCase_iff]
  have aligned := length_lowerWithin before [] [] [] part
  rw [← lowerCase_eq part] at aligned
  constructor
  · intro ⟨rest, same⟩
    exact (List.append_inj' same aligned.symm).2.symm
  · intro same
    rw [same]
    exact List.suffix_append _ _

theorem lowerCase_infix (kept : KeepsSigmas before part behind) :
    lowerCase part <:+: lowerCase (before ++ part ++ behind) := by
  rw [lowerCase_eq (before ++ part ++ behind), lowerWithin_append, lowerWithin_append,
    List.append_nil, List.nil_append, lowerWithin_eq_lowerCase_iff.mpr kept]
  exact List.infix_append _ _ _

end DocumentGraph.Text
