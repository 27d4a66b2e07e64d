import DocumentGraph.Proofs.Document.Declaration
import DocumentGraph.Proofs.Number.Nearest
import Mathlib.Tactic.FieldSimp
import Mathlib.Tactic.NormNum

namespace DocumentGraph.Document.FrontMatter

/-! Numerals in front matter.

Digits, with or without a minus sign and a fraction, denote a rational number.  Without a fraction
they are read as an integer exactly if they denote one in range.  With a fraction it is the nearest
floating-point number that decides, so a numeral may be read as an integer that it does not denote.
-/

open Number (Binary64)

variable {i : Int64} {x : Binary64} {numerator denominator : Nat}

/-- Digits, perhaps with a minus sign in front, and with a point and more digits behind. -/
structure Numeral where
  negative : Bool
  whole : List Char
  fraction : Option (List Char)
  whole_isDigits : Text.isDigits whole = true
  fraction_isDigits : ∀ digits ∈ fraction, Text.isDigits digits = true

/-- The number of the digits behind a point. -/
def fractionValue : List Char → ℚ
  | [] => 0
  | digit :: digits => (Text.digitValue digit + fractionValue digits) / 10

namespace Numeral

def unsigned (numeral : Numeral) : List Char :=
  match numeral.fraction with
  | none => numeral.whole
  | some digits => numeral.whole ++ '.' :: digits

def text (numeral : Numeral) : List Char :=
  if numeral.negative then '-' :: numeral.unsigned else numeral.unsigned

def decimals (numeral : Numeral) : List Char :=
  numeral.fraction.getD []

/-- All digits as one whole number. -/
def significand (numeral : Numeral) : Nat :=
  Text.digitsValue (numeral.whole ++ numeral.decimals)

/-- The number that a numeral denotes. -/
def number (numeral : Numeral) : ℚ :=
  let absolute := Text.digitsValue numeral.whole + fractionValue numeral.decimals
  if numeral.negative then -absolute else absolute

end Numeral

theorem digitsValue_add_fractionValue (front digits : List Char) :
    (Text.digitsValue front : ℚ) + fractionValue digits =
      Text.digitsValue (front ++ digits) / (10 ^ digits.length : Nat) := by
  induction digits generalizing front with
  | nil => simp [fractionValue]
  | cons digit digits ih =>
      have longer : Text.digitsValue (front ++ [digit]) =
          10 * Text.digitsValue front + Text.digitValue digit := by
        simp [Text.digitsValue]
      have next := ih (front ++ [digit])
      rw [longer, List.append_assoc, List.singleton_append] at next
      rw [List.length_cons, Nat.pow_succ, Nat.cast_mul, ← div_div, ← next, fractionValue]
      push_cast
      field_simp
      rw [add_assoc]

theorem Numeral.number_eq (numeral : Numeral) :
    numeral.number = Binary64.withSign numeral.negative numeral.significand /
      (10 ^ numeral.decimals.length : Nat) := by
  have absolute := digitsValue_add_fractionValue numeral.whole numeral.decimals
  rw [number, absolute, significand]
  cases numeral.negative with
  | false => rfl
  | true => simp [Binary64.withSign, neg_div]

theorem Numeral.exists_first (numeral : Numeral) :
    ∃ first rest, numeral.unsigned = first :: rest ∧ first.isDigit = true := by
  have decimal := numeral.whole_isDigits
  unfold unsigned
  cases whole : numeral.whole with
  | nil =>
      rw [whole] at decimal
      contradiction
  | cons first rest =>
      rw [whole] at decimal
      have digit := List.all_eq_true.mp (Bool.and_eq_true_iff.mp decimal).2 first List.mem_cons_self
      cases numeral.fraction with
      | none => exact ⟨first, rest, rfl, digit⟩
      | some digits => exact ⟨first, rest ++ '.' :: digits, rfl, digit⟩

theorem Numeral.decimalParts?_unsigned (numeral : Numeral) :
    decimalParts? numeral.unsigned = some (numeral.whole, numeral.fraction) := by
  have decimal := numeral.whole_isDigits
  have digits := numeral.fraction_isDigits
  unfold unsigned
  cases fraction : numeral.fraction with
  | none => exact decimalParts?_of_isDigits decimal
  | some behind =>
      have cut : Text.cutAt? ['.'] (numeral.whole ++ '.' :: behind) =
          some (numeral.whole, behind) :=
        Text.cutAt?_append List.not_mem_nil (no_point_of_isDigits decimal) behind
      rw [decimalParts?, cut]
      exact if_pos (Bool.and_eq_true_iff.mpr ⟨decimal, digits behind fraction⟩)

/-- The floating-point number that a numeral is read as. -/
def Numeral.rounded (numeral : Numeral) : Binary64 :=
  .ofRatio numeral.negative numeral.significand (10 ^ numeral.decimals.length)

theorem Numeral.ofDecimal_eq (numeral : Numeral) :
    Binary64.ofDecimal numeral.negative numeral.significand (-(numeral.decimals.length : Int)) =
      numeral.rounded := by
  have whole : (-(numeral.decimals.length : Int)).toNat = 0 := by omega
  have places : (- -(numeral.decimals.length : Int)).toNat = numeral.decimals.length := by omega
  rw [Binary64.ofDecimal, whole, places]
  exact congrArg (Binary64.ofRatio _ · _) (Nat.mul_one _)

theorem Numeral.number?_text (numeral : Numeral) :
    number? numeral.text = some (match numeral.fraction with
      | none => ((Text.readInt64? numeral.text).map Property.integer).getD
          (collapse numeral.rounded)
      | some _ => collapse numeral.rounded) := by
  have rounded := congrArg collapse numeral.ofDecimal_eq
  unfold significand decimals at rounded
  unfold number?
  split
  rename_i negative digits sign
  have signs : (negative, digits) = (numeral.negative, numeral.unsigned) := by
    obtain ⟨first, rest, unsigned, digit⟩ := numeral.exists_first
    rw [← sign, text]
    cases numeral.negative with
    | true => rfl
    | false =>
        rw [if_neg Bool.false_ne_true, unsigned]
        split
        · rename_i same
          obtain ⟨rfl, _⟩ := List.cons.inj same
          contradiction
        · rfl
  obtain ⟨rfl, rfl⟩ := Prod.mk.inj signs
  simp only [numeral.decimalParts?_unsigned, Option.bind_eq_bind, Option.bind_some, rounded]
  cases numeral.fraction <;> rfl

theorem Numeral.value_text (numeral : Numeral) :
    value numeral.text = match numeral.fraction with
      | none => ((Text.readInt64? numeral.text).map Property.integer).getD
          (collapse numeral.rounded)
      | some _ => collapse numeral.rounded := by
  have read := numeral.number?_text
  obtain ⟨first, rest, unsigned, digit⟩ := numeral.exists_first
  unfold text at read ⊢
  rw [unsigned] at read ⊢
  cases negative : numeral.negative with
  | true =>
      rw [negative] at read
      exact value_of_number? (.inr rfl) read
  | false =>
      rw [negative] at read
      exact value_of_number? (.inl digit) read

theorem natAbs_toInt_lt_iff : i.toInt.natAbs < 2 ^ 63 ↔ i ≠ Int64.minValue := by
  have low := i.minValue_le_toInt
  have high := i.toInt_lt
  rw [ne_eq, ← Int64.toInt_inj, Int64.toInt_minValue]
  rw [Int64.toInt_minValue] at low
  omega

/-- A floating-point number is taken for an integer if it is one in range. -/
theorem collapse_eq_integer_iff :
    collapse x = .integer i ↔
      i ≠ Int64.minValue ∧ x.isFinite = true ∧ x.toRat = i.toInt := by
  rw [← natAbs_toInt_lt_iff, ← Binary64.toInt?_eq_some_iff]
  unfold collapse
  cases x.toInt? with
  | none => simp
  | some value =>
      dsimp only
      split
      · rename_i small
        have small : value.natAbs < 2 ^ 63 := small
        have kept : (Int64.ofInt value).toInt = value :=
          Int64.toInt_ofInt_of_le (by omega) (by omega)
        rw [Property.integer.injEq, Option.some.injEq]
        constructor
        · rintro rfl
          rw [kept]
          exact ⟨small, rfl⟩
        · rintro ⟨_, rfl⟩
          exact i.ofInt_toInt
      · rename_i large
        simp only [reduceCtorEq, Option.some.injEq, false_iff, not_and]
        rintro small rfl
        exact large small

/-- A ratio is read as the integer that its nearest number is, if that is in range. -/
theorem collapse_ofRatio_eq_integer_iff (negative : Bool) (positive : 0 < denominator) :
    collapse (.ofRatio negative numerator denominator) = .integer i ↔
      i ≠ Int64.minValue ∧
        ∃ x : Binary64, x.NearestTo (Binary64.withSign negative numerator / denominator) ∧
          x.toRat = i.toInt := by
  rw [collapse_eq_integer_iff]
  refine and_congr_right fun inRange => ?_
  by_cases finite :
      Binary64.roundedMagnitude numerator denominator < Binary64.infiniteMagnitude
  · have nearest := Binary64.nearestTo_ofRatio negative positive finite
    constructor
    · rintro ⟨_, same⟩
      exact ⟨_, nearest, same⟩
    · rintro ⟨x, nearest', same⟩
      exact ⟨nearest.finite, (nearest.toRat_eq nearest').trans same⟩
  · -- What is rounded to an infinity is far out of range.
    have large : 2 ^ 63 * denominator ≤ numerator :=
      Nat.le_of_not_lt fun below => finite (Binary64.roundedMagnitude_lt positive below)
    constructor
    · rintro ⟨isFinite, _⟩
      exact absurd ((Binary64.isFinite_ofRatio negative).mp isFinite) finite
    · rintro ⟨x, nearest, same⟩
      have small := natAbs_toInt_lt_iff.mpr inRange
      exact absurd (nearest.limit_le positive large same) (Nat.not_le.mpr small)

namespace Numeral

variable {numeral : Numeral}

theorem value_eq_integer_iff_of_fraction {digits : List Char}
    (fraction : numeral.fraction = some digits) :
    value numeral.text = .integer i ↔
      i ≠ Int64.minValue ∧
        ∃ x : Binary64, x.NearestTo numeral.number ∧ x.toRat = i.toInt := by
  rw [numeral.value_text, fraction, numeral.number_eq]
  exact collapse_ofRatio_eq_integer_iff _ (Nat.pow_pos (by decide))

theorem signedNumeral_text (whole : numeral.fraction = none) :
    Text.SignedNumeral numeral.text (Binary64.withSign numeral.negative numeral.significand) := by
  have digits := Text.digits_of_isDigits numeral.whole_isDigits
  unfold text unsigned significand decimals
  rw [whole, Option.getD_none, List.append_nil]
  cases numeral.negative with
  | false => exact .plain digits
  | true => exact .minus digits

theorem decimals_of_whole (whole : numeral.fraction = none) : numeral.decimals = [] := by
  rw [decimals, whole, Option.getD_none]

theorem number_eq_intCast (whole : numeral.fraction = none) :
    numeral.number = Binary64.withSign numeral.negative numeral.significand := by
  rw [number_eq, decimals_of_whole whole, List.length_nil, Nat.pow_zero, Nat.cast_one, div_one]

theorem readInt64?_text_eq_some_iff (whole : numeral.fraction = none) :
    Text.readInt64? numeral.text = some i ↔ numeral.number = i.toInt := by
  have signed := signedNumeral_text whole
  rw [Text.readInt64?_eq_some_iff, number_eq_intCast whole, Int.cast_inj]
  constructor
  · exact signed.value_eq
  · intro same
    rwa [same] at signed

/-- What is no 64-bit integer is out of range. -/
theorem le_significand_of_readInt64? (whole : numeral.fraction = none)
    (unread : Text.readInt64? numeral.text = none) : 2 ^ 63 ≤ numeral.significand := by
  refine Nat.le_of_not_lt fun small => ?_
  have size := Binary64.natAbs_withSign numeral.negative numeral.significand
  have kept : (Int64.ofInt (Binary64.withSign numeral.negative numeral.significand)).toInt =
      Binary64.withSign numeral.negative numeral.significand :=
    Int64.toInt_ofInt_of_le (by omega) (by omega)
  have read := (readInt64?_text_eq_some_iff whole).mpr
    ((number_eq_intCast whole).trans (congrArg Int.cast kept.symm))
  rw [unread] at read
  contradiction

/-- Without a fraction a numeral is read exactly. -/
theorem value_eq_integer_iff_of_whole (whole : numeral.fraction = none) :
    value numeral.text = .integer i ↔ numeral.number = i.toInt := by
  rw [numeral.value_text, whole, ← readInt64?_text_eq_some_iff whole]
  cases read : Text.readInt64? numeral.text with
  | some j => simp
  | none =>
      have large := le_significand_of_readInt64? whole read
      simp only [Option.map_none, Option.getD_none, reduceCtorEq, iff_false]
      rw [rounded, decimals_of_whole whole, collapse_ofRatio_eq_integer_iff _ (by decide)]
      rintro ⟨inRange, x, nearest, same⟩
      have small := natAbs_toInt_lt_iff.mpr inRange
      have large : 2 ^ 63 * 10 ^ ([] : List Char).length ≤ numeral.significand := by
        rwa [List.length_nil, Nat.pow_zero, Nat.mul_one]
      have beyond := nearest.limit_le (by decide) large same
      exact Nat.not_le.mpr small beyond

/-- With few digits a numeral denotes the integer that its nearest number is. -/
theorem exists_nearestTo_iff_of_few (few : numeral.significand < 2 ^ 53)
    (coarse : numeral.decimals.length ≤ 323) :
    (i ≠ Int64.minValue ∧ ∃ x : Binary64, x.NearestTo numeral.number ∧ x.toRat = i.toInt) ↔
      numeral.number = i.toInt := by
  have positive : 0 < 10 ^ numeral.decimals.length := Nat.pow_pos (by decide)
  constructor
  · rintro ⟨_, x, nearest, same⟩
    have units : 10 ^ numeral.decimals.length < 2 * Binary64.unitsPerOne :=
      Nat.lt_of_le_of_lt (Nat.pow_le_pow_right (by decide) coarse) (by decide +kernel)
    rw [number_eq] at nearest ⊢
    exact nearest.eq_of_few positive few units same
  · intro same
    have size : i.toInt.natAbs < 2 ^ 53 := by
      rw [number_eq, div_eq_iff (Nat.cast_ne_zero.mpr positive.ne')] at same
      have product : Binary64.withSign numeral.negative numeral.significand =
          i.toInt * (10 ^ numeral.decimals.length : Nat) := by exact_mod_cast same
      have absolute := congrArg Int.natAbs product
      rw [Binary64.natAbs_withSign, Int.natAbs_mul, Int.natAbs_natCast] at absolute
      exact Nat.lt_of_le_of_lt (Nat.le_mul_of_pos_right _ positive) (absolute ▸ few)
    obtain ⟨significand, exponent, normal, exact⟩ := Binary64.exists_normal (Nat.le_of_lt size)
    obtain ⟨x, finite, equal⟩ := normal.exists_toRat i.toInt exact
    have nearest := Binary64.nearestTo_toRat finite
    rw [equal, ← same] at nearest
    exact ⟨natAbs_toInt_lt_iff.mp (Nat.lt_trans size (by decide)), x, nearest, equal⟩

end Numeral

/-- A numeral is read as the integer that it denotes if it has no fraction, and otherwise as the
integer that the nearest floating-point number is, unless this is the least 64-bit integer.  With at
most 53 binary digits and 323 decimals it is the integer that it denotes. -/
theorem value_numeral_eq_integer_iff (numeral : Numeral) (i : Int64) :
    (value numeral.text = .integer i ↔
      match numeral.fraction with
      | none => numeral.number = i.toInt
      | some _ => i ≠ Int64.minValue ∧
          ∃ x : Binary64, x.NearestTo numeral.number ∧ x.toRat = i.toInt) ∧
    (numeral.significand < 2 ^ 53 → numeral.decimals.length ≤ 323 →
      (value numeral.text = .integer i ↔ numeral.number = i.toInt)) := by
  cases fraction : numeral.fraction with
  | none =>
      have read := Numeral.value_eq_integer_iff_of_whole (i := i) fraction
      exact ⟨read, fun _ _ => read⟩
  | some digits =>
      have read := Numeral.value_eq_integer_iff_of_fraction (i := i) fraction
      exact ⟨read, fun few coarse => read.trans (Numeral.exists_nearestTo_iff_of_few few coarse)⟩

theorem value_numeral_eq_integer_iff_minusSeven : value "-07.00".toList = .integer (-7) := by
  let numeral : Numeral := ⟨true, ['0', '7'], some ['0', '0'], by decide, by decide⟩
  have number : numeral.number = (-7 : Int64).toInt := by
    have significand : Binary64.withSign true numeral.significand = -700 := by decide
    have minusSeven : (-7 : Int64).toInt = -7 := by decide
    rw [numeral.number_eq, significand, minusSeven]
    norm_num [numeral, Numeral.decimals]
  exact ((value_numeral_eq_integer_iff numeral (-7)).2 (by decide) (by decide)).mpr number

/-- The nearest floating-point number may be another integer, or an integer where the numeral
denotes none. -/
theorem value_numeral_rounded :
    (∃ numeral : Numeral, numeral.text = "9007199254740993.0".toList ∧
      numeral.number = (9007199254740993 : Int64).toInt ∧
      value numeral.text = .integer 9007199254740992) ∧
    ∃ numeral : Numeral, numeral.text = "0.99999999999999999999".toList ∧
      (∀ i : Int, numeral.number ≠ i) ∧ value numeral.text = .integer 1 := by
  constructor
  · refine ⟨⟨false, "9007199254740993".toList, some ['0'], by decide, by decide⟩, by decide, ?_,
      by decide +kernel⟩
    have significand : Text.digitsValue ("9007199254740993".toList ++ ['0']) =
        90071992547409930 := by decide
    have integer : (9007199254740993 : Int64).toInt = 9007199254740993 := by decide
    rw [Numeral.number_eq, Numeral.significand, Numeral.decimals, Option.getD_some, significand,
      integer]
    norm_num [Binary64.withSign]
  · refine ⟨⟨false, ['0'], some "99999999999999999999".toList, by decide, by decide⟩, by decide, ?_,
      by decide +kernel⟩
    have significand : Text.digitsValue (['0'] ++ "99999999999999999999".toList) =
        99999999999999999999 := by decide
    have places : "99999999999999999999".toList.length = 20 := by decide
    intro i same
    rw [Numeral.number_eq, Numeral.significand, Numeral.decimals, Option.getD_some, significand,
      places] at same
    have above : (0 : ℚ) < i := by
      rw [← same]
      norm_num [Binary64.withSign]
    have below : (i : ℚ) < 1 := by
      rw [← same]
      norm_num [Binary64.withSign]
    have above : 0 < i := Int.cast_pos.mp above
    have below : i < 1 := by exact_mod_cast below
    omega

end DocumentGraph.Document.FrontMatter
