import DocumentGraph.Proofs.Document.Declaration
import Mathlib.Algebra.Order.BigOperators.Group.List
import Mathlib.Algebra.Order.Ring.Nat

namespace DocumentGraph.Document.FrontMatter

/-! Quoted items that hold commas.

A list is cut at every comma before any quote is looked at.  So an item with a comma falls apart:
its first fragment keeps the opening quote and its last one the closing quote, and what is between
them is read as items of its own.
-/

variable {item : String} {items : List String} {piece last : List Char}

/-- What stands for the pieces of an item behind its first comma. -/
def fragmentsBehind : List (List Char) → List String
  | [] => []
  | [last] => [String.ofList (last.dropWhile Text.isBlank ++ ['"'])]
  | piece :: next :: pieces => itemOf piece :: fragmentsBehind (next :: pieces)

/-- What is read in place of an item without double quotes. -/
def fragments (item : String) : List String :=
  match Text.splitOn ',' item.toList with
  | first :: next :: pieces =>
      String.ofList ('"' :: Text.trimEnd first) :: fragmentsBehind (next :: pieces)
  | _ => [item]

theorem isSuffixOf?_eq_none {c : Char} (absent : c ∉ piece) : [c].isSuffixOf? piece = none := by
  cases found : [c].isSuffixOf? piece with
  | none => rfl
  | some front =>
      rw [← List.isSuffixOf?_eq_some_iff_append_eq.mp found] at absent
      simp at absent

/-- A quote that is opened and not closed is no quote. -/
theorem itemOf_opened (plain : '"' ∉ piece) :
    itemOf ('"' :: piece) = String.ofList ('"' :: Text.trimEnd piece) := by
  have trimmed : Text.trim ('"' :: piece) = '"' :: Text.trimEnd piece := by
    rw [Text.trim, List.dropWhile_cons_of_neg (by decide)]
    exact Text.trimEnd_append_cons (by decide) [] piece
  have plain : '"' ∉ Text.trimEnd piece := by
    intro member
    have kept := (List.dropWhile_sublist Text.isBlank).subset (List.mem_reverse.mp member)
    exact plain (List.mem_reverse.mp kept)
  rw [itemOf, trimmed, unquote, quoted?, if_pos (by decide), isSuffixOf?_eq_none plain,
    Option.getD_none]

/-- A quote that is closed and was not opened is no quote, whatever sort of quote opens the text. -/
theorem itemOf_closed (plain : '"' ∉ last) :
    itemOf (last ++ ['"']) = String.ofList (last.dropWhile Text.isBlank ++ ['"']) := by
  have trimmed : Text.trim (last ++ ['"']) = last.dropWhile Text.isBlank ++ ['"'] := by
    rw [Text.trim, List.dropWhile_append]
    split
    · rename_i nothing
      rw [List.isEmpty_iff.mp nothing]
      rfl
    · exact Text.trimEnd_append_cons (by decide) _ []
  have plain : '"' ∉ last.dropWhile Text.isBlank :=
    fun member => plain ((List.dropWhile_sublist _).subset member)
  have noQuotes : quoted? (last.dropWhile Text.isBlank ++ ['"']) = none := by
    cases left : last.dropWhile Text.isBlank with
    | nil => rfl
    | cons first rest =>
        rw [left] at plain
        have double : first ≠ '"' := (List.ne_of_not_mem_cons plain).symm
        rw [List.cons_append, quoted?]
        split
        · rename_i opens
          obtain rfl : first = '\'' := by simpa [double] using opens
          cases found : ['\''].isSuffixOf? (rest ++ ['"']) with
          | none => rfl
          | some front =>
              have ends := congrArg List.getLast? (List.isSuffixOf?_eq_some_iff_append_eq.mp found)
              simp at ends
        · rfl
  rw [itemOf, trimmed, unquote, noQuotes, Option.getD_none]

theorem map_itemOf_concat (plain : '"' ∉ last) (pieces : List (List Char)) :
    (pieces ++ [last ++ ['"']]).map itemOf = fragmentsBehind (pieces ++ [last]) := by
  induction pieces with
  | nil => exact congrArg (fun item => [item]) (itemOf_closed plain)
  | cons piece pieces ih =>
      rw [List.cons_append, List.map_cons, ih]
      cases pieces with
      | nil => rfl
      | cons next pieces => rfl

theorem map_itemOf_splitOn_quoted (plain : '"' ∉ item.toList) :
    (Text.splitOn ',' (quoted item)).map itemOf = fragments item := by
  have other : '"' ≠ ',' := by decide
  obtain ⟨pieces, last, split, longer⟩ := Text.exists_splitOn_concat other item.toList
  cases pieces with
  | nil =>
      have undivided : ',' ∉ item.toList := by
        intro divided
        have two := Text.two_le_length_splitOn divided
        rw [split] at two
        exact absurd two (by simp)
      rw [map_itemOf_quoted undivided, fragments, Text.splitOn_of_not_mem undivided]
  | cons first pieces =>
      have opened : Text.splitOn ',' (quoted item) =
          ('"' :: first) :: (pieces ++ [last ++ ['"']]) :=
        Text.splitOn_cons_of_ne (by decide) longer
      have within : ∀ piece ∈ first :: pieces ++ [last], '"' ∉ piece :=
        fun piece member quote => plain (Text.subset_of_mem_splitOn (split ▸ member) quote)
      rw [opened, List.map_cons, itemOf_opened (within first (by simp)),
        map_itemOf_concat (within last (by simp)), fragments, split]
      cases pieces with
      | nil => rfl
      | cons next pieces => rfl

/-- A comma in an item makes the list longer. -/
theorem length_lt_of_divided (divided : ∃ item ∈ items, ',' ∈ item.toList) :
    items.length <
      (items.flatMap fun item => (Text.splitOn ',' (quoted item)).map itemOf).length := by
  have each : ∀ item ∈ items, 1 ≤ ((Text.splitOn ',' (quoted item)).map itemOf).length := by
    intro item _
    rw [List.length_map]
    exact List.length_pos_iff.mpr (Text.pieces_ne_nil _ _)
  have some : ∃ item ∈ items, 1 < ((Text.splitOn ',' (quoted item)).map itemOf).length := by
    obtain ⟨item, member, comma⟩ := divided
    have divided : ',' ∈ quoted item := by simp [quoted, comma]
    have two := Text.two_le_length_splitOn divided
    exact ⟨item, member, by rwa [List.length_map]⟩
  have total := List.sum_lt_sum _ _ each some
  simpa [List.length_flatMap] using total

/-- Quotes protect the items of a list exactly if no item holds a comma.  Items without double
quotes are read as their fragments. -/
theorem value_bracketed_eq_iff (items : List String) :
    (value (bracketed items) = .list items ↔ ∀ item ∈ items, ',' ∉ item.toList) ∧
      ((∀ item ∈ items, '"' ∉ item.toList) →
        value (bracketed items) = .list (items.flatMap fragments)) := by
  refine ⟨⟨?_, value_list⟩, ?_⟩
  · intro kept item member comma
    rw [value_bracketed] at kept
    have longer := length_lt_of_divided ⟨item, member, comma⟩
    rw [Property.list.inj kept] at longer
    exact Nat.lt_irrefl _ longer
  · intro plain
    have read : ∀ item ∈ items, (Text.splitOn ',' (quoted item)).map itemOf = fragments item :=
      fun item member => map_itemOf_splitOn_quoted (plain item member)
    rw [value_bracketed, List.flatMap_congr read]

theorem value_bracketed_eq_iff_clause :
    value (bracketed ["a", "b, 'c' ,, d"]) = .list ["a", "\"b", "c", "", "d\""] := by
  have plain : ∀ item ∈ ["a", "b, 'c' ,, d"], '"' ∉ item.toList := by decide
  exact (value_bracketed_eq_iff ["a", "b, 'c' ,, d"]).2 plain

/-- Quotes around a comma do not keep it. -/
theorem value_bracketed_torn :
    (∀ item ∈ ["a, b"], '"' ∉ item.toList ∧ '\n' ∉ item.toList) ∧
      value (bracketed ["a, b"]) = .list ["\"a", "b\""] ∧
      value (bracketed ["a, b"]) ≠ .list ["a, b"] := by
  have torn : value (bracketed ["a, b"]) = .list ["\"a", "b\""] := rfl
  exact ⟨by decide, torn, by rw [torn]; decide⟩

end DocumentGraph.Document.FrontMatter
