import DocumentGraph.Evaluate.Compare
import DocumentGraph.Proofs.Number.Binary64
import DocumentGraph.Proofs.Text.LetterCase
import DocumentGraph.Proofs.Text.Split

namespace DocumentGraph

/-! What comparisons say.

A test on strings finds what is there literally, unless a capital sigma of what it looks for ends
a word on one side only.  A comparison fails exactly if it asks for an order that its operands do
not have: they are not two numbers or two strings, or one of them is a NaN.
-/

open Number (Binary64)

namespace Value

variable {value left right : Value}

def isNumber : Value → Bool
  | integer _ | float _ => true
  | _ => false

def isString : Value → Bool
  | string _ => true
  | _ => false

def isNaN : Value → Bool
  | float value => value.isNaN
  | _ => false

/-- The values are two numbers or two strings. -/
def Comparable (left right : Value) : Prop :=
  left.isNumber = true ∧ right.isNumber = true ∨ left.isString = true ∧ right.isString = true

theorem isSome_toBinary64? (value : Value) : value.toBinary64?.isSome = value.isNumber := by
  cases value <;> rfl

theorem isNaN_of_toBinary64? {x : Binary64} (number : value.toBinary64? = some x) :
    x.isNaN = value.isNaN := by
  cases value with
  | integer value =>
      obtain rfl := Option.some.inj number
      exact Binary64.isNaN_ofInt value
  | float value =>
      obtain rfl := Option.some.inj number
      rfl
  | _ => contradiction

/-- Between two numbers or two strings, only a NaN has no order. -/
theorem order?_eq_none_iff : left.order? right = none ↔
    ¬left.Comparable right ∨ left.isNaN = true ∨ right.isNaN = true := by
  unfold order?
  split
  case h_1 => simp [Comparable, isNumber, isNaN]
  case h_2 => simp [Comparable, isString, isNaN]
  case h_3 integers strings =>
    -- two strings are gone by now, and all that is left to have in common is being numbers
    have numbers : left.Comparable right ↔ left.isNumber = true ∧ right.isNumber = true := by
      refine or_iff_left fun ⟨leftString, rightString⟩ => ?_
      cases left with
      | string text =>
          cases right with
          | string part => exact strings text part rfl rfl
          | _ => contradiction
      | _ => contradiction
    rw [numbers, ← isSome_toBinary64?, ← isSome_toBinary64?]
    cases leftNumber : left.toBinary64? with
    | none => simp
    | some x =>
        cases rightNumber : right.toBinary64? with
        | none => simp
        | some y =>
            rw [← isNaN_of_toBinary64? leftNumber, ← isNaN_of_toBinary64? rightNumber]
            simpa using Binary64.compare?_eq_none_iff

end Value

namespace Query.ComparisonOperator

variable {operator : ComparisonOperator} {left right : Value} {error : QueryError}
  {text part : String}

theorem apply_contains_iff :
    contains.apply (.string text) (.string part) = .ok true ↔
      Text.lowerCase part.toList <:+: Text.lowerCase text.toList :=
  (iff_of_eq (Except.ok.injEq ..)).trans Text.occursIn_iff_infix

theorem apply_startsWith_iff :
    startsWith.apply (.string text) (.string part) = .ok true ↔
      Text.lowerCase part.toList <+: Text.lowerCase text.toList :=
  (iff_of_eq (Except.ok.injEq ..)).trans List.isPrefixOf_iff_prefix

theorem apply_endsWith_iff :
    endsWith.apply (.string text) (.string part) = .ok true ↔
      Text.lowerCase part.toList <:+ Text.lowerCase text.toList :=
  (iff_of_eq (Except.ok.injEq ..)).trans List.isSuffixOf_iff_suffix

/-- Without capital sigmas, what occurs literally is found.  With them it is found if they are kept,
and at the front and at the end of a text only then. -/
theorem apply_literal (text part : String) :
    ('\u03a3' ∉ part.toList →
      (part.toList <:+: text.toList → contains.apply (.string text) (.string part) = .ok true) ∧
      (part.toList <+: text.toList → startsWith.apply (.string text) (.string part) = .ok true) ∧
      (part.toList <:+ text.toList → endsWith.apply (.string text) (.string part) = .ok true)) ∧
    (∀ before behind, text.toList = before ++ part.toList ++ behind →
      Text.KeepsSigmas before part.toList behind →
        contains.apply (.string text) (.string part) = .ok true) ∧
    (∀ behind, text.toList = part.toList ++ behind →
      (startsWith.apply (.string text) (.string part) = .ok true ↔
        Text.KeepsSigmas [] part.toList behind)) ∧
    (∀ before, text.toList = before ++ part.toList →
      (endsWith.apply (.string text) (.string part) = .ok true ↔
        Text.KeepsSigmas before part.toList [])) := by
  have within (before behind : List Char) (found : text.toList = before ++ part.toList ++ behind)
      (kept : Text.KeepsSigmas before part.toList behind) :
      contains.apply (.string text) (.string part) = .ok true := by
    rw [apply_contains_iff, found]
    exact Text.lowerCase_infix kept
  have front (behind : List Char) (found : text.toList = part.toList ++ behind) :
      startsWith.apply (.string text) (.string part) = .ok true ↔
        Text.KeepsSigmas [] part.toList behind := by
    rw [apply_startsWith_iff, found]
    exact Text.lowerCase_prefix_iff
  have back (before : List Char) (found : text.toList = before ++ part.toList) :
      endsWith.apply (.string text) (.string part) = .ok true ↔
        Text.KeepsSigmas before part.toList [] := by
    rw [apply_endsWith_iff, found]
    exact Text.lowerCase_suffix_iff
  refine ⟨fun absent => ?_, within, front, back⟩
  have kept := Text.keepsSigmas_of_not_mem absent
  exact ⟨fun ⟨before, behind, found⟩ => within before behind found.symm (kept before behind),
    fun ⟨behind, found⟩ => (front behind found.symm).mpr (kept [] behind),
    fun ⟨before, found⟩ => (back before found.symm).mpr (kept before [])⟩

theorem apply_literal_twice :
    "ΟΔΟΣ ΟΔΟΣ".toList = "ΟΔΟΣ".toList ++ " ΟΔΟΣ".toList ∧
    "ΟΔΟΣ ΟΔΟΣ".toList = "ΟΔΟΣ ".toList ++ "ΟΔΟΣ".toList ∧
    contains.apply (.string "ΟΔΟΣ ΟΔΟΣ") (.string "ΟΔΟΣ") = .ok true ∧
    startsWith.apply (.string "ΟΔΟΣ ΟΔΟΣ") (.string "ΟΔΟΣ") = .ok true ∧
    endsWith.apply (.string "ΟΔΟΣ ΟΔΟΣ") (.string "ΟΔΟΣ") = .ok true ∧
    contains.apply (.string "ΟΔΟΣ ΟΔΟΣ") (.string "ΔΟ") = .ok true := by
  have atFront : "ΟΔΟΣ ΟΔΟΣ".toList = "ΟΔΟΣ".toList ++ " ΟΔΟΣ".toList := by decide
  have atEnd : "ΟΔΟΣ ΟΔΟΣ".toList = "ΟΔΟΣ ".toList ++ "ΟΔΟΣ".toList := by decide
  have ⟨_, within, front, back⟩ := apply_literal "ΟΔΟΣ ΟΔΟΣ" "ΟΔΟΣ"
  refine ⟨atFront, atEnd, ?_, ?_, ?_, ?_⟩
  · exact within "ΟΔΟΣ ".toList [] (by decide) (by decide +kernel)
  · exact (front _ atFront).mpr (by decide +kernel)
  · exact (back _ atEnd).mpr (by decide +kernel)
  · exact ((apply_literal "ΟΔΟΣ ΟΔΟΣ" "ΔΟ").1 (by decide)).1 ⟨['Ο'], "Σ ΟΔΟΣ".toList, by decide⟩

/-- A capital sigma by itself ends no word. -/
theorem apply_literal_lost :
    "Σ".toList <:+ "ΟΔΟΣ".toList ∧
      endsWith.apply (.string "ΟΔΟΣ") (.string "Σ") = .ok false ∧
      contains.apply (.string "ΟΔΟΣ") (.string "Σ") = .ok false ∧
    "ΟΔΟΣ".toList <+: "ΟΔΟΣΑ".toList ∧
      startsWith.apply (.string "ΟΔΟΣΑ") (.string "ΟΔΟΣ") = .ok false := by
  decide +kernel

/-- Whether the operator asks for the order of its operands. -/
def isOrdering : ComparisonOperator → Bool
  | lessThan | lessEqual | greaterThan | greaterEqual => true
  | _ => false

/-- The operator asks for an order that its operands do not have. -/
structure LacksOrder (operator : ComparisonOperator) (left right : Value) : Prop where
  ordering : operator.isOrdering = true
  leftGiven : left.isNull = false
  rightGiven : right.isNull = false
  apart : ¬left.Comparable right ∨ left.isNaN = true ∨ right.isNaN = true

theorem ordered_eq_error_iff {accepts : Ordering → Bool} :
    operator.ordered left right accepts = .error error ↔ left.order? right = none ∧
      error = .typeMismatch operator.spelling left.kindName right.kindName := by
  unfold ordered
  cases left.order? right with
  | none => simp [eq_comm]
  | some order => simp

/-- A comparison fails only for want of an order. -/
theorem apply_eq_error_iff : operator.apply left right = .error error ↔
    operator.LacksOrder left right ∧
      error = .typeMismatch operator.spelling left.kindName right.kindName := by
  have lacks : operator.LacksOrder left right ↔ operator.isOrdering = true ∧
      (left.isNull || right.isNull) = false ∧ left.order? right = none := by
    rw [Value.order?_eq_none_iff, Bool.or_eq_false_iff]
    exact ⟨fun lacks => ⟨lacks.ordering, ⟨lacks.leftGiven, lacks.rightGiven⟩, lacks.apart⟩,
      fun ⟨ordering, given, apart⟩ => ⟨ordering, given.1, given.2, apart⟩⟩
  rw [lacks]
  unfold apply
  cases left.isNull || right.isNull with
  | true => simp
  | false => cases operator <;> simp [ordered_eq_error_iff, isOrdering]

theorem apply_outcome (operator : ComparisonOperator) (left right : Value) :
    (∀ error, operator.apply left right = .error error ↔ operator.LacksOrder left right ∧
      error = .typeMismatch operator.spelling left.kindName right.kindName) ∧
    ((∃ holds, operator.apply left right = .ok holds) ↔ ¬operator.LacksOrder left right) := by
  refine ⟨fun error => apply_eq_error_iff, ?_⟩
  cases outcome : operator.apply left right with
  | ok holds =>
      refine iff_of_true ⟨holds, rfl⟩ fun lacks => ?_
      rw [apply_eq_error_iff.mpr ⟨lacks, rfl⟩] at outcome
      contradiction
  | error error =>
      exact iff_of_false nofun (not_not_intro (apply_eq_error_iff.mp outcome).1)

/-- Two numbers, and yet no order between them. -/
theorem apply_lessThan_nan :
    (Value.float ⟨0x7ff8000000000000⟩).Comparable (.integer 1) ∧
      lessThan.apply (.float ⟨0x7ff8000000000000⟩) (.integer 1) =
        .error (.typeMismatch "<" "float" "integer") :=
  ⟨.inl ⟨rfl, rfl⟩, rfl⟩

end Query.ComparisonOperator

end DocumentGraph
