import DocumentGraph.Text.Blank
import Mathlib.Data.List.TakeWhile

namespace DocumentGraph.Text

/-! Trimming.

Blanks around a text are trimmed off, and a text with other characters at both its ends stays as it
is.
-/

variable {text blanks : List Char} {c : Char}

/-- There is no blank at either end. -/
structure Tight (text : List Char) : Prop where
  front : ∀ c, text.head? = some c → isBlank c = false
  back : ∀ c, text.getLast? = some c → isBlank c = false

theorem trimEnd_append (blank : ∀ c ∈ blanks, isBlank c = true) (text : List Char) :
    trimEnd (text ++ blanks) = trimEnd text := by
  have reversed : ∀ c ∈ blanks.reverse, isBlank c = true :=
    fun c member => blank c (List.mem_reverse.mp member)
  rw [trimEnd, List.reverse_append, List.dropWhile_append_of_pos reversed]
  rfl

theorem trimEnd_append_cons (solid : isBlank c = false) (front behind : List Char) :
    trimEnd (front ++ c :: behind) = front ++ c :: trimEnd behind := by
  have kept : (c :: front.reverse).dropWhile isBlank = c :: front.reverse :=
    List.dropWhile_cons_of_neg (by simp [solid])
  rw [trimEnd, List.reverse_append, List.reverse_cons, List.append_assoc, List.singleton_append,
    List.dropWhile_append, trimEnd]
  split
  · rename_i nothing
    rw [kept, List.isEmpty_iff.mp nothing, List.reverse_cons, List.reverse_reverse]
    rfl
  · simp

theorem trimEnd_eq_self (back : ∀ c, text.getLast? = some c → isBlank c = false) :
    trimEnd text = text := by
  rcases List.eq_nil_or_concat text with rfl | ⟨front, last, rfl⟩
  · rfl
  · rw [List.concat_eq_append] at back ⊢
    exact trimEnd_append_cons (back last List.getLast?_concat) front []

theorem trim_cons (blank : isBlank c = true) (text : List Char) : trim (c :: text) = trim text := by
  rw [trim, List.dropWhile_cons_of_pos blank, trim]

theorem trim_append_right (blank : ∀ c ∈ blanks, isBlank c = true) (text : List Char) :
    trim (text ++ blanks) = trim text := by
  rw [trim, trim, List.dropWhile_append]
  split
  · rename_i nothing
    have vanished : blanks.dropWhile isBlank = [] := List.dropWhile_eq_nil_iff.mpr blank
    rw [vanished, List.isEmpty_iff.mp nothing]
  · exact trimEnd_append blank _

theorem trim_trimEnd (text : List Char) : trim (trimEnd text) = trim text := by
  have blank : ∀ c ∈ (text.reverse.takeWhile isBlank).reverse, isBlank c = true :=
    fun c member => List.mem_takeWhile_imp (List.mem_reverse.mp member)
  have whole : text = trimEnd text ++ (text.reverse.takeWhile isBlank).reverse := by
    rw [trimEnd, ← List.reverse_append, List.takeWhile_append_dropWhile, List.reverse_reverse]
  calc trim (trimEnd text)
      = trim (trimEnd text ++ (text.reverse.takeWhile isBlank).reverse) :=
        (trim_append_right blank _).symm
    _ = trim text := by rw [← whole]

theorem trim_ne_nil (solid : isBlank c = false) (rest : List Char) : trim (c :: rest) ≠ [] := by
  rw [trim, List.dropWhile_cons_of_neg (by simp [solid]), trimEnd, ne_eq, List.reverse_eq_nil_iff,
    List.dropWhile_eq_nil_iff]
  intro blank
  have first := blank c (List.mem_reverse.mpr List.mem_cons_self)
  rw [solid] at first
  contradiction

/-- Something is left of a text that is not blank. -/
theorem trim_ne_nil_of_mem (solid : isBlank c = false) (member : c ∈ text) : trim text ≠ [] := by
  induction text with
  | nil => contradiction
  | cons first rest ih =>
      cases blank : isBlank first with
      | false => exact trim_ne_nil blank rest
      | true =>
          have other : c ≠ first := by
            rintro rfl
            exact Bool.false_ne_true (solid.symm.trans blank)
          rw [trim_cons blank]
          exact ih (List.mem_of_ne_of_mem other member)

theorem Tight.trim_eq (tight : Tight text) : trim text = text := by
  have kept : text.dropWhile isBlank = text := by
    cases text with
    | nil => rfl
    | cons c rest => exact List.dropWhile_cons_of_neg (by simp [tight.front c rfl])
  rw [trim, kept, trimEnd_eq_self tight.back]

/-- Between two characters that are no blanks anything may stand. -/
theorem Tight.of_ends {first last : Char} {inner : List Char} (front : isBlank first = false)
    (back : isBlank last = false) : Tight (first :: inner ++ [last]) where
  front c head := by
    obtain rfl := Option.some.inj head
    exact front
  back c tail := by
    rw [List.getLast?_concat] at tail
    obtain rfl := Option.some.inj tail
    exact back

theorem tight_of_forall (solid : ∀ c ∈ text, isBlank c = false) : Tight text where
  front c head := solid c (List.mem_of_mem_head? head)
  back c tail := solid c (List.mem_of_getLast? tail)

/-- ASCII letters, digits, underscores and dashes are no blanks. -/
theorem not_isBlank_of_isAlphanum (solid : c.isAlphanum = true ∨ c = '_' ∨ c = '-') :
    isBlank c = false := by
  have ascii : c.toNat < 128 := by
    rcases solid with alphanumeric | rfl | rfl
    · have below : c.val ≤ 'z'.val := by
        rcases Bool.or_eq_true_iff.mp alphanumeric with letter | digit
        · rcases Bool.or_eq_true_iff.mp letter with upper | lower
          · exact UInt32.le_trans (of_decide_eq_true upper).2 (by decide)
          · exact of_decide_eq_true (Bool.and_eq_true_iff.mp lower).2
        · exact UInt32.le_trans (of_decide_eq_true (Bool.and_eq_true_iff.mp digit).2) (by decide)
      exact Nat.lt_of_le_of_lt (UInt32.le_iff_toNat_le.mp below) (by decide)
    · decide
    · decide
  have all : ∀ n < 128, (Char.ofNat n).isAlphanum = true ∨ Char.ofNat n = '_' ∨ Char.ofNat n = '-' →
      isBlank (Char.ofNat n) = false := by decide +kernel
  have found := all c.toNat ascii
  rw [Char.ofNat_toNat] at found
  exact found solid

end DocumentGraph.Text
