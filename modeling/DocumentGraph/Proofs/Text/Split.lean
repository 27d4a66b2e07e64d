import DocumentGraph.Text.Split
import Mathlib.Data.List.Infix

namespace DocumentGraph.Text

/-! Cutting texts at separators, in the words of the list library. -/

variable {separator : Char} {texts : List (List Char)}

theorem pieces_eq_splitOnP (separates : Char → Bool) (text : List Char) :
    pieces separates text = text.splitOnP separates := by
  induction text with
  | nil => rw [pieces, List.splitOnP_nil]
  | cons c rest ih =>
      rw [pieces, List.splitOnP_cons_eq_if_modifyHead, ← ih]
      split
      · rfl
      · cases found : pieces separates rest with
        | nil => exact absurd found (pieces_ne_nil separates rest)
        | cons piece others => rfl

theorem splitOn_eq (separator : Char) (text : List Char) :
    splitOn separator text = text.splitOn separator :=
  pieces_eq_splitOnP _ text

theorem splitOn_append_cons {front : List Char} (absent : separator ∉ front)
    (behind : List Char) :
    splitOn separator (front ++ separator :: behind) = front :: splitOn separator behind := by
  rw [splitOn_eq, splitOn_eq, List.splitOn_append_cons_self_of_not_mem absent]

/-- Pieces without the separator are found between separators. -/
theorem splitOn_intercalate (apart : ∀ text ∈ texts, separator ∉ text) (nonempty : texts ≠ []) :
    splitOn separator ([separator].intercalate texts) = texts := by
  rw [splitOn_eq]
  exact List.splitOn_intercalate separator apart nonempty

/-- Pieces between separators may hold separators of their own. -/
theorem splitOn_intercalate_flatMap (nonempty : texts ≠ []) :
    splitOn separator ([separator].intercalate texts) = texts.flatMap (splitOn separator) := by
  induction texts with
  | nil => contradiction
  | cons text rest ih =>
      cases rest with
      | nil => rw [List.intercalate_singleton, List.flatMap_cons, List.flatMap_nil, List.append_nil]
      | cons next rest =>
          have later := ih (List.cons_ne_nil next rest)
          rw [List.intercalate_cons_cons, List.append_assoc, List.flatMap_cons, ← later, splitOn_eq,
            splitOn_eq, splitOn_eq]
          exact List.splitOn_append_cons_self _ _

theorem splitOn_of_not_mem {text : List Char} (absent : separator ∉ text) :
    splitOn separator text = [text] := by
  have apart : ∀ piece ∈ [text], separator ∉ piece := by simpa using absent
  have single := splitOn_intercalate apart (List.cons_ne_nil _ _)
  rwa [List.intercalate_singleton] at single

theorem not_mem_intercalate {mark : List Char} {c : Char} (apart : ∀ text ∈ texts, c ∉ text)
    (other : c ∉ mark) : c ∉ mark.intercalate texts := by
  induction texts with
  | nil => exact List.not_mem_nil
  | cons text rest ih =>
      obtain ⟨here, later⟩ := List.forall_mem_cons.mp apart
      cases rest with
      | nil => rwa [List.intercalate_singleton]
      | cons next rest =>
          rw [List.intercalate_cons_cons, List.mem_append, List.mem_append]
          simp only [here, other, ih later, or_self, not_false_eq_true]

theorem splitOn_toList_intercalate {mark : String} (single : mark.toList = [separator])
    {texts : List String} (apart : ∀ text ∈ texts, separator ∉ text.toList)
    (nonempty : texts ≠ []) :
    splitOn separator (mark.intercalate texts).toList = texts.map String.toList := by
  rw [String.toList_intercalate, single]
  exact splitOn_intercalate (List.forall_mem_map.mpr apart) (by simpa using nonempty)

/-- Where every piece ends with a separator, nothing is left behind the last one. -/
theorem splitOn_flatMap_ended (apart : ∀ text ∈ texts, separator ∉ text) :
    splitOn separator (texts.flatMap (· ++ [separator])) = texts ++ [[]] := by
  induction texts with
  | nil => rfl
  | cons text rest ih =>
      have later := ih fun other member => apart other (List.mem_cons_of_mem _ member)
      rw [List.flatMap_cons, List.append_assoc, List.singleton_append,
        splitOn_append_cons (apart text List.mem_cons_self), later, List.cons_append]

theorem dropEnd_append (text mark : List Char) : dropEnd mark (text ++ mark) = text := by
  rw [dropEnd, List.isSuffixOf?_eq_some_iff_append_eq.mpr rfl, Option.getD_some]

theorem dropEnd_eq_self {text : List Char} {c : Char} (last : text.getLast? ≠ some c) :
    dropEnd [c] text = text := by
  unfold dropEnd
  cases found : [c].isSuffixOf? text with
  | none => rfl
  | some front =>
      rw [← List.isSuffixOf?_eq_some_iff_append_eq.mp found, List.getLast?_concat] at last
      contradiction

section Items

variable {α : Type} [DecidableEq α] {separator : α}

theorem takeWhile_append_cons {front : List α} (absent : separator ∉ front)
    (behind : List α) : (front ++ separator :: behind).takeWhile (· ≠ separator) = front := by
  have others : ∀ c ∈ front, decide (c ≠ separator) = true := by
    simpa using fun c member => ne_of_mem_of_not_mem member absent
  rw [List.takeWhile_append_of_pos others]
  simp

theorem cutAtLast?_append {behind : List α} (front : List α) (last : separator ∉ behind) :
    cutAtLast? separator (front ++ separator :: behind) = some (front, behind) := by
  have reversed : (front ++ separator :: behind).reverse =
      behind.reverse ++ separator :: front.reverse := by simp
  have taken := takeWhile_append_cons (mt List.mem_reverse.mp last) front.reverse
  rw [cutAtLast?, if_pos (by simp)]
  simp only [reversed, taken, List.reverse_reverse]
  rw [List.drop_length_add_append, List.drop_one, List.tail_cons, List.reverse_reverse]

/-- The last separator is the one that no other follows. -/
theorem cutAtLast?_eq_some_iff {text front behind : List α} :
    cutAtLast? separator text = some (front, behind) ↔
      text = front ++ separator :: behind ∧ separator ∉ behind := by
  constructor
  · intro found
    have occurs : separator ∈ text := by
      refine Decidable.byContradiction fun absent => ?_
      rw [cutAtLast?, if_neg absent] at found
      contradiction
    obtain ⟨late, early, reversed, last⟩ :=
      List.eq_append_cons_of_mem (List.mem_reverse.mpr occurs)
    have cut : text = early.reverse ++ separator :: late.reverse := by
      rw [← text.reverse_reverse, reversed]
      simp
    have last : separator ∉ late.reverse := mt List.mem_reverse.mp last
    rw [cut, cutAtLast?_append _ last, Option.some.injEq, Prod.mk.injEq] at found
    obtain ⟨rfl, rfl⟩ := found
    exact ⟨cut, last⟩
  · rintro ⟨rfl, last⟩
    exact cutAtLast?_append front last

end Items

theorem occursIn_iff_infix {part text : List Char} :
    occursIn part text = true ↔ part <:+: text := by
  induction text with
  | nil => rw [occursIn, List.isEmpty_iff, List.infix_nil]
  | cons c rest ih =>
      rw [occursIn, Bool.or_eq_true, List.isPrefixOf_iff_prefix, ih, List.infix_cons_iff]

section Mark

variable {mark text front behind rest piece : List Char} {pieces : List (List Char)}

theorem isPrefixOf?_eq_none_iff : mark.isPrefixOf? text = none ↔ ¬ mark <+: text := by
  rw [← Option.not_isSome_iff_eq_none, List.isSome_isPrefixOf?_eq_isPrefixOf,
    List.isPrefixOf_iff_prefix]

theorem eq_append_of_cutAt? (cut : cutAt? mark text = some (front, behind)) :
    text = front ++ mark ++ behind := by
  induction text generalizing front with
  | nil =>
      unfold cutAt? at cut
      split at cut
      · rename_i empty
        obtain ⟨rfl, rfl⟩ := Prod.mk.inj (Option.some.inj cut)
        simpa using empty
      · contradiction
  | cons c text ih =>
      cases found : mark.isPrefixOf? (c :: text) with
      | some rest =>
          simp only [cutAt?, found] at cut
          obtain ⟨rfl, rfl⟩ := Prod.mk.inj (Option.some.inj cut)
          exact (List.isPrefixOf?_eq_some_iff_append_eq.mp found).symm
      | none =>
          simp only [cutAt?, found] at cut
          obtain ⟨⟨later, _⟩, inner, same⟩ := Option.map_eq_some_iff.mp cut
          obtain ⟨rfl, rfl⟩ := Prod.mk.inj same
          exact congrArg (c :: ·) (ih inner)

theorem cutAt?_eq_none_iff (nonempty : mark ≠ []) :
    cutAt? mark text = none ↔ ¬ mark <:+: text := by
  induction text with
  | nil => simp [cutAt?, nonempty]
  | cons c text ih =>
      rw [List.infix_cons_iff, not_or, ← ih, ← isPrefixOf?_eq_none_iff, cutAt?]
      cases mark.isPrefixOf? (c :: text) with
      | some rest => simp
      | none => simp

/-- What has no separator does not reach over one. -/
theorem prefix_of_prefix_append_cons (apart : separator ∉ rest)
    (begins : rest <+: front ++ separator :: behind) : rest <+: front := by
  rcases List.prefix_or_prefix_of_prefix begins (List.prefix_append front _) with within | beyond
  · exact within
  · obtain ⟨more, rfl⟩ := beyond
    cases more with
    | nil => exact ⟨[], by simp⟩
    | cons c more =>
        obtain ⟨same, _⟩ := List.cons_prefix_cons.mp ((List.prefix_append_right_inj front).mp begins)
        exact absurd (by simp [same]) apart

/-- A mark that begins with a character of its own is found where it occurs first. -/
theorem cutAt?_append (apart : separator ∉ rest) (absent : ¬ separator :: rest <:+: front)
    (behind : List Char) :
    cutAt? (separator :: rest) (front ++ separator :: (rest ++ behind)) = some (front, behind) := by
  induction front with
  | nil =>
      have here : (separator :: rest).isPrefixOf? (separator :: (rest ++ behind)) = some behind :=
        List.isPrefixOf?_eq_some_iff_append_eq.mpr rfl
      rw [List.nil_append, cutAt?, here]
  | cons c front ih =>
      rw [List.infix_cons_iff, not_or] at absent
      have notHere : (separator :: rest).isPrefixOf?
          (c :: (front ++ separator :: (rest ++ behind))) = none := by
        rw [isPrefixOf?_eq_none_iff]
        intro begins
        obtain ⟨same, inner⟩ := List.cons_prefix_cons.mp begins
        have within := prefix_of_prefix_append_cons apart inner
        exact absent.1 (List.cons_prefix_cons.mpr ⟨same, within⟩)
      rw [List.cons_append, cutAt?, notHere, ih absent.2]
      rfl

theorem exists_splitOn (separator : Char) (text : List Char) :
    ∃ piece pieces, splitOn separator text = piece :: pieces :=
  List.exists_cons_of_ne_nil (pieces_ne_nil _ text)

theorem splitOn_cons_self :
    splitOn separator (separator :: text) = [] :: splitOn separator text := by
  simp [splitOn, Text.pieces]

theorem splitOn_cons_of_ne {c : Char} (other : c ≠ separator)
    (split : splitOn separator text = piece :: pieces) :
    splitOn separator (c :: text) = (c :: piece) :: pieces := by
  rw [splitOn] at split ⊢
  simp only [Text.pieces, decide_eq_true_eq, if_neg other, split]

theorem subset_of_mem_splitOn (member : piece ∈ splitOn separator text) : piece ⊆ text := by
  induction text generalizing piece with
  | nil =>
      obtain rfl := List.mem_singleton.mp member
      exact List.Subset.refl _
  | cons c text ih =>
      by_cases same : c = separator
      · subst same
        rw [splitOn_cons_self] at member
        rcases List.mem_cons.mp member with rfl | later
        · exact List.nil_subset _
        · exact List.subset_cons_of_subset c (ih later)
      · obtain ⟨first, others, split⟩ := exists_splitOn separator text
        rw [splitOn_cons_of_ne same split] at member
        rw [split] at ih
        rcases List.mem_cons.mp member with rfl | later
        · exact List.cons_subset_cons c (ih List.mem_cons_self)
        · exact List.subset_cons_of_subset c (ih (List.mem_cons_of_mem _ later))

/-- What is written behind a text belongs to its last piece. -/
theorem exists_splitOn_concat {c : Char} (other : c ≠ separator) (text : List Char) :
    ∃ pieces last, splitOn separator text = pieces ++ [last] ∧
      splitOn separator (text ++ [c]) = pieces ++ [last ++ [c]] := by
  induction text with
  | nil => exact ⟨[], [], rfl, by simp [splitOn, pieces, other]⟩
  | cons d text ih =>
      obtain ⟨pieces, last, split, longer⟩ := ih
      by_cases same : d = separator
      · subst same
        exact ⟨[] :: pieces, last, by rw [splitOn_cons_self, split]; rfl,
          by rw [List.cons_append, splitOn_cons_self, longer]; rfl⟩
      · cases pieces with
        | nil =>
            exact ⟨[], d :: last, splitOn_cons_of_ne same split, splitOn_cons_of_ne same longer⟩
        | cons piece pieces =>
            exact ⟨(d :: piece) :: pieces, last, splitOn_cons_of_ne same split,
              splitOn_cons_of_ne same longer⟩

theorem two_le_length_splitOn (divided : separator ∈ text) :
    2 ≤ (splitOn separator text).length := by
  obtain ⟨front, behind, rfl, absent⟩ := List.eq_append_cons_of_mem divided
  rw [splitOn_append_cons absent, List.length_cons]
  have := List.length_pos_iff.mpr (pieces_ne_nil (· = separator) behind)
  exact Nat.succ_le_succ this

theorem prefix_iff_of_splitOn (apart : separator ∉ rest)
    (split : splitOn separator text = piece :: pieces) : rest <+: text ↔ rest <+: piece := by
  induction text generalizing rest piece with
  | nil =>
      obtain ⟨rfl, _⟩ := List.cons.inj split
      rfl
  | cons c text ih =>
      obtain ⟨inner, others, split'⟩ := exists_splitOn separator text
      cases rest with
      | nil => simp
      | cons d rest =>
          by_cases same : c = separator
          · subst same
            rw [splitOn_cons_self] at split
            obtain ⟨rfl, _⟩ := List.cons.inj split
            have different : d ≠ c := fun same => apart (same ▸ List.mem_cons_self)
            simp [different]
          · rw [splitOn_cons_of_ne same split'] at split
            obtain ⟨rfl, rfl⟩ := List.cons.inj split
            rw [List.cons_prefix_cons, List.cons_prefix_cons,
              ih (List.not_mem_of_not_mem_cons apart) split']

/-- A mark that begins with a separator occurs where a piece behind a separator begins with the
rest of it. -/
theorem infix_iff_of_splitOn (apart : separator ∉ rest)
    (split : splitOn separator text = piece :: pieces) :
    separator :: rest <:+: text ↔ ∃ other ∈ pieces, rest <+: other := by
  induction text generalizing piece pieces with
  | nil =>
      obtain ⟨_, rfl⟩ := List.cons.inj split
      simp
  | cons c text ih =>
      obtain ⟨inner, others, split'⟩ := exists_splitOn separator text
      rw [List.infix_cons_iff, ih split', List.cons_prefix_cons, prefix_iff_of_splitOn apart split']
      by_cases same : c = separator
      · subst same
        rw [splitOn_cons_self, split'] at split
        obtain ⟨rfl, rfl⟩ := List.cons.inj split
        simp
      · rw [splitOn_cons_of_ne same split'] at split
        obtain ⟨rfl, rfl⟩ := List.cons.inj split
        simp [Ne.symm same]

end Mark

end DocumentGraph.Text
