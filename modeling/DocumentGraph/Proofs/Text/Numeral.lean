import DocumentGraph.Text.Numeral
import Mathlib.Data.List.Induction

namespace DocumentGraph.Text

/-! Numerals.

`Digits` builds a row of digits from the left.  A reader for words of a fixed width accepts
exactly the numerals whose number is the number of a word.
-/

/-- A row of at least one decimal digit, and its number. -/
inductive Digits : List Char → Nat → Prop where
  | one {digit : Char} (decimal : digit.isDigit) : Digits [digit] (digitValue digit)
  | more {row : List Char} {number : Nat} {digit : Char} (front : Digits row number)
      (decimal : digit.isDigit) : Digits (row ++ [digit]) (10 * number + digitValue digit)

/-- Digits, with or without a plus sign. -/
inductive UnsignedNumeral : List Char → Nat → Prop where
  | plain {row : List Char} {number : Nat} (digits : Digits row number) :
      UnsignedNumeral row number
  | plus {row : List Char} {number : Nat} (digits : Digits row number) :
      UnsignedNumeral ('+' :: row) number

/-- Digits, with or without a sign. -/
inductive SignedNumeral : List Char → Int → Prop where
  | plain {row : List Char} {number : Nat} (digits : Digits row number) :
      SignedNumeral row number
  | plus {row : List Char} {number : Nat} (digits : Digits row number) :
      SignedNumeral ('+' :: row) number
  | minus {row : List Char} {number : Nat} (digits : Digits row number) :
      SignedNumeral ('-' :: row) (-number)

variable {text row : List Char} {number : Nat}

theorem Digits.isDigits (digits : Digits row number) : isDigits row = true := by
  induction digits with
  | one decimal => simp [Text.isDigits, decimal]
  | more front decimal ih =>
      simp only [Text.isDigits, Bool.and_eq_true] at ih ⊢
      simp [decimal, ih.2]

theorem Digits.digitsValue_eq (digits : Digits row number) : digitsValue row = number := by
  induction digits with
  | one decimal => simp [digitsValue]
  | more front decimal ih =>
      rw [← ih]
      simp [digitsValue]

theorem digits_of_isDigits (decimal : isDigits row = true) : Digits row (digitsValue row) := by
  induction row using List.reverseRecOn with
  | nil => contradiction
  | append_singleton row digit ih =>
      simp only [isDigits, List.all_append, List.all_cons, List.all_nil, Bool.and_true,
        Bool.and_eq_true] at decimal
      obtain ⟨_, front, last⟩ := decimal
      cases row with
      | nil => simpa [digitsValue] using Digits.one last
      | cons first others =>
          have earlier := ih (by simp only [isDigits, front, List.isEmpty_cons, Bool.not_false,
            Bool.and_true])
          simpa [digitsValue] using earlier.more last

theorem digitsValue?_eq_some_iff : digitsValue? row = some number ↔ Digits row number := by
  unfold digitsValue?
  constructor
  · intro read
    split at read
    · rename_i decimal
      rw [← Option.some.inj read]
      exact digits_of_isDigits decimal
    · contradiction
  · intro digits
    rw [if_pos digits.isDigits, digits.digitsValue_eq]

theorem digitValue_digitChar : ∀ digit < 10, digitValue digit.digitChar = digit := by
  decide

/-- The decimal form of a number. -/
theorem digits_toString (number : Nat) : Digits (toString number).toList number := by
  rw [Nat.toString_eq_repr, Nat.repr_eq_ofList_toDigits, String.toList_ofList]
  induction number using Nat.strongRecOn with
  | ind number ih =>
      have decimal (digit : Nat) (small : digit < 10) : digit.digitChar.isDigit = true := by
        simp [Nat.isDigit_digitChar, small]
      by_cases small : number < 10
      · rw [Nat.toDigits_of_lt_base small]
        have single := Digits.one (decimal number small)
        rwa [digitValue_digitChar number small] at single
      · have large : 10 ≤ number := Nat.le_of_not_lt small
        have rest : number % 10 < 10 := Nat.mod_lt number (by decide)
        have longer := (ih (number / 10) (Nat.div_lt_self (by omega) (by decide))).more
          (decimal _ rest)
        rw [digitValue_digitChar _ rest, Nat.div_add_mod] at longer
        rwa [Nat.toDigits_of_base_le (by decide) large]

/-- The decimal form begins with a zero for zero only. -/
theorem eq_zero_of_head?_toString {number : Nat}
    (leading : (toString number).toList.head? = some '0') : number = 0 := by
  rw [Nat.toString_eq_repr, Nat.repr_eq_ofList_toDigits, String.toList_ofList] at leading
  induction number using Nat.strongRecOn with
  | ind number ih =>
      by_cases small : number < 10
      · rw [Nat.toDigits_of_lt_base small, List.head?_cons, Option.some.injEq] at leading
        exact Nat.digitChar_eq_zero.mp leading
      · have large : 10 ≤ number := Nat.le_of_not_lt small
        rw [Nat.toDigits_of_base_le (by decide) large, List.head?_append,
          List.head?_eq_some_head Nat.toDigits_ne_nil, Option.some_or,
          ← List.head?_eq_some_head Nat.toDigits_ne_nil] at leading
        have front := ih (number / 10) (Nat.div_lt_self (by omega) (by decide)) leading
        omega

theorem toString_negSucc (number : Nat) :
    (toString (Int.negSucc number)).toList = '-' :: (toString (number + 1)).toList := by
  have written : toString (Int.negSucc number) = "-" ++ toString (number + 1) := rfl
  rw [written, String.toList_append]
  rfl

/-- The decimal form of a whole number, with a minus sign in front if it is negative. -/
theorem exists_digits_toString (value : Int) : ∃ row number, Digits row number ∧
    ((toString value).toList = row ∧ value = number ∨
      (toString value).toList = '-' :: row ∧ value = -number) := by
  cases value with
  | ofNat number => exact ⟨_, number, digits_toString number, .inl ⟨rfl, rfl⟩⟩
  | negSucc number =>
      exact ⟨_, number + 1, digits_toString _,
        .inr ⟨toString_negSucc number, Int.negSucc_eq number⟩⟩

theorem not_digits_of_sign {sign : Char} (signed : sign = '+' ∨ sign = '-') :
    ¬ Digits (sign :: row) number := by
  intro digits
  have decimal := digits.isDigits
  rcases signed with rfl | rfl <;> simp [isDigits] at decimal

theorem SignedNumeral.nonneg {value : Int} (numeral : SignedNumeral text value)
    (unsigned : isDigits text = true) : 0 ≤ value := by
  cases numeral with
  | plain digits => exact Int.natCast_nonneg _
  | plus digits => exact Int.natCast_nonneg _
  | minus digits => simp [isDigits] at unsigned

/-- A numeral has one value. -/
theorem SignedNumeral.value_eq {value value' : Int} (numeral : SignedNumeral text value)
    (numeral' : SignedNumeral text value') : value = value' := by
  cases numeral with
  | plain digits =>
      cases numeral' with
      | plain digits' => rw [← digits.digitsValue_eq, ← digits'.digitsValue_eq]
      | plus digits' => exact absurd digits (not_digits_of_sign (.inl rfl))
      | minus digits' => exact absurd digits (not_digits_of_sign (.inr rfl))
  | plus digits =>
      cases numeral' with
      | plain digits' => exact absurd digits' (not_digits_of_sign (.inl rfl))
      | plus digits' => rw [← digits.digitsValue_eq, ← digits'.digitsValue_eq]
  | minus digits =>
      cases numeral' with
      | plain digits' => exact absurd digits' (not_digits_of_sign (.inr rfl))
      | minus digits' => rw [← digits.digitsValue_eq, ← digits'.digitsValue_eq]

theorem digits_unsigned_iff :
    Digits (match text with
      | '+' :: rest => rest
      | _ => text) number ↔ UnsignedNumeral text number := by
  split
  · refine ⟨.plus, fun numeral => ?_⟩
    cases numeral with
    | plain digits => exact absurd digits (not_digits_of_sign (.inl rfl))
    | plus digits => exact digits
  · rename_i unsigned
    refine ⟨.plain, fun numeral => ?_⟩
    cases numeral with
    | plain digits => exact digits
    | plus digits => exact absurd rfl (unsigned _)

theorem readUInt32?_eq_some_iff {word : UInt32} :
    readUInt32? text = some word ↔ UnsignedNumeral text word.toNat := by
  unfold readUInt32?
  simp only [Option.bind_eq_bind, Option.bind_eq_some_iff, digitsValue?_eq_some_iff,
    Option.ite_none_right_eq_some, Option.some.injEq]
  constructor
  · intro found
    obtain ⟨value, digits, fits, rfl⟩ := found
    rw [UInt32.toNat_ofNat_of_lt' fits]
    exact digits_unsigned_iff.mp digits
  · intro numeral
    exact ⟨word.toNat, digits_unsigned_iff.mpr numeral, word.toNat_lt, UInt32.ofNat_toNat⟩

/-- A number is read when it is the number of a word. -/
theorem bind_fits_eq_some_iff {value? : Option Int} {word : Int64} :
    (value?.bind fun value =>
      if Int64.minValue.toInt ≤ value ∧ value ≤ Int64.maxValue.toInt then
        some (Int64.ofInt value)
      else none) = some word ↔ value? = some word.toInt := by
  simp only [Option.bind_eq_some_iff, Option.ite_none_right_eq_some, Option.some.injEq]
  constructor
  · intro found
    obtain ⟨value, read, ⟨low, high⟩, rfl⟩ := found
    have below : value < 2 ^ 63 := Int.lt_of_le_of_lt high (by decide)
    rw [Int64.toInt_ofInt_of_le low below]
    exact read
  · intro read
    exact ⟨word.toInt, read, ⟨word.minValue_le_toInt, word.toInt_le⟩, word.ofInt_toInt⟩

theorem map_digitsValue?_eq_some_iff {f : Nat → Int} {value : Int} :
    (digitsValue? row).map f = some value ↔ ∃ number, Digits row number ∧ f number = value := by
  rw [Option.map_eq_some_iff]
  exact exists_congr fun number => and_congr_left fun _ => digitsValue?_eq_some_iff

theorem readInt64?_eq_some_iff {word : Int64} :
    readInt64? text = some word ↔ SignedNumeral text word.toInt := by
  unfold readInt64?
  simp only [Option.bind_eq_bind]
  split
  · rw [bind_fits_eq_some_iff, map_digitsValue?_eq_some_iff]
    refine ⟨fun ⟨number, digits, same⟩ => same ▸ .plus digits, fun numeral => ?_⟩
    generalize word.toInt = value at numeral
    cases numeral with
    | plain digits => exact absurd digits (not_digits_of_sign (.inl rfl))
    | plus digits => exact ⟨_, digits, rfl⟩
  · rw [bind_fits_eq_some_iff, map_digitsValue?_eq_some_iff]
    refine ⟨fun ⟨number, digits, same⟩ => same ▸ .minus digits, fun numeral => ?_⟩
    generalize word.toInt = value at numeral
    cases numeral with
    | plain digits => exact absurd digits (not_digits_of_sign (.inr rfl))
    | minus digits => exact ⟨_, digits, rfl⟩
  · rename_i unsigned positive
    rw [bind_fits_eq_some_iff, map_digitsValue?_eq_some_iff]
    refine ⟨fun ⟨number, digits, same⟩ => same ▸ .plain digits, fun numeral => ?_⟩
    generalize word.toInt = value at numeral
    cases numeral with
    | plain digits => exact ⟨_, digits, rfl⟩
    | plus digits => exact absurd rfl (unsigned _)
    | minus digits => exact absurd rfl (positive _)

end DocumentGraph.Text
