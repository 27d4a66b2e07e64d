import DocumentGraph.Proofs.Query.Spaced
import DocumentGraph.Proofs.Query.Unplaced
import DocumentGraph.Proofs.Query.WellFormed

namespace DocumentGraph.Query

/-! Columns and expressions.

An item without an alias fills the column that is spelled like its expression.  A name goes on up to
the first character that no name holds, so the spelling of a well-formed expression can be cut there
and read back: up to places, different expressions have different columns.
-/

/-- The text is a row of characters of names and then begins with another character, or ends. -/
structure CutAt (text front behind : List Char) : Prop where
  split : text = front ++ behind
  row : front.all isNamePart = true
  apart : ∀ c ∈ behind.head?, isNamePart c = false

/-- There is one place to cut a text. -/
theorem CutAt.inj {text text' front front' behind behind' : List Char}
    (cut : CutAt text front behind) (cut' : CutAt text' front' behind') (same : text = text') :
    front = front' ∧ behind = behind' := by
  have takeWhile_eq {text front behind : List Char} (cut : CutAt text front behind) :
      text.takeWhile isNamePart = front := by
    have ended : behind.takeWhile isNamePart = [] := by
      cases behind with
      | nil => rfl
      | cons c rest => exact List.takeWhile_cons_of_neg (by simp [cut.apart c rfl])
    rw [cut.split, List.takeWhile_append_of_pos (List.all_eq_true.mp cut.row), ended,
      List.append_nil]
  subst same
  obtain rfl : front = front' := (takeWhile_eq cut).symm.trans (takeWhile_eq cut')
  exact ⟨rfl, List.append_cancel_left (cut.split.symm.trans cut'.split)⟩

def AggregateArgument.WellFormed : AggregateArgument → Prop
  | star => True
  | property access => access.WellFormed
  | element identifier => IsVariable identifier

namespace AggregateArgument

/-- How an argument is spelled. -/
def text : AggregateArgument → List Char
  | star => ['*']
  | property access => access.spelling.toList
  | element identifier => identifier.name.toList

/-- The spelling up to the end of its first name. -/
def front : AggregateArgument → List Char
  | star => []
  | property access => access.owner.name.toList
  | element identifier => identifier.name.toList

/-- The spelling behind its first name. -/
def behind : AggregateArgument → List Char
  | star => ['*']
  | property access => '.' :: access.property.toList
  | element _ => []

variable {argument left right : AggregateArgument}

theorem WellFormed.cut (formed : argument.WellFormed) :
    CutAt argument.text argument.front argument.behind := by
  cases argument with
  | star => exact ⟨rfl, rfl, by simp [behind]; decide⟩
  | property access =>
      exact ⟨by simp [text, front, behind, PropertyAccess.spelling],
        all_isNamePart formed.owner.named, by simp [behind]; decide⟩
  | element identifier =>
      exact ⟨(List.append_nil _).symm, all_isNamePart formed.named, by simp [behind]⟩

/-- A name in an argument does not go on with a parenthesis or a space. -/
theorem head?_behind (argument : AggregateArgument) :
    argument.behind.head? ≠ some '(' ∧ argument.behind.head? ≠ some ' ' := by
  cases argument <;> simp [behind]

theorem WellFormed.unplaced_eq (formed : left.WellFormed) (formed' : right.WellFormed)
    (same : left.text = right.text) : left.unplaced = right.unplaced := by
  have named {left right : Identifier} (same : left.name.toList = right.name.toList) :
      left.unplaced = right.unplaced := by
    rw [Identifier.unplaced, Identifier.unplaced, String.toList_inj.mp same]
  obtain ⟨fronts, behinds⟩ := formed.cut.inj formed'.cut same
  cases left with
  | star => cases right <;> first | rfl | simp [behind] at behinds
  | property access =>
      cases right with
      | property other =>
          have properties : access.property = other.property :=
            String.toList_inj.mp (List.cons.inj behinds).2
          simp only [unplaced, PropertyAccess.unplaced, named fronts, properties]
      | star => simp [behind] at behinds
      | element identifier => simp [behind] at behinds
  | element identifier =>
      cases right with
      | element other => simp only [unplaced, named fronts]
      | star => simp [behind] at behinds
      | property access => simp [behind] at behinds

end AggregateArgument

/-- What stands between the parentheses of an aggregate. -/
def Aggregate.inside (aggregate : Aggregate) : List Char :=
  (if aggregate.distinct then "DISTINCT ".toList else []) ++ aggregate.argument.text

theorem Aggregate.WellFormed.argument {aggregate : Aggregate} (formed : aggregate.WellFormed) :
    aggregate.argument.WellFormed := by
  obtain ⟨function, distinct, argument⟩ := aggregate
  cases argument with
  | star => trivial
  | property access => exact formed
  | element identifier => exact formed

theorem cut_aggregate {aggregate : Aggregate} (formed : aggregate.WellFormed) :
    CutAt aggregate.spelling.toList aggregate.function.spelling.toList
      ('(' :: (aggregate.inside ++ [')'])) where
  split := by
    obtain ⟨function, distinct, argument⟩ := aggregate
    cases argument with
    | star =>
        obtain ⟨_, rfl⟩ := formed
        simp [Aggregate.spelling, Aggregate.inside, AggregateArgument.text]
    | property access =>
        cases distinct <;> simp [Aggregate.spelling, Aggregate.inside, AggregateArgument.text]
    | element identifier =>
        cases distinct <;> simp [Aggregate.spelling, Aggregate.inside, AggregateArgument.text]
  row := by cases aggregate.function <;> decide
  apart := by simp; decide

theorem cut_distinct (text : List Char) :
    CutAt ("DISTINCT ".toList ++ text) "DISTINCT".toList (' ' :: text) where
  split := rfl
  row := by decide
  apart := by simp; decide

/-- DISTINCT is no name in an argument, since a space follows. -/
theorem distinct_text_ne {argument : AggregateArgument} (formed : argument.WellFormed)
    (text : List Char) : "DISTINCT ".toList ++ text ≠ argument.text := by
  intro same
  obtain ⟨_, spaced⟩ := (cut_distinct text).inj formed.cut same
  exact argument.head?_behind.2 (spaced ▸ rfl)

theorem Aggregate.unplaced_eq {left right : Aggregate} (formed : left.WellFormed)
    (formed' : right.WellFormed) (same : left.spelling = right.spelling) :
    left.unplaced = right.unplaced := by
  obtain ⟨functions, behind⟩ := (cut_aggregate formed).inj (cut_aggregate formed') (same ▸ rfl)
  have insides : left.inside = right.inside := List.append_cancel_right (List.cons.inj behind).2
  have argument := formed.argument
  have argument' := formed'.argument
  obtain ⟨function, distinct, leftArgument⟩ := left
  obtain ⟨function', distinct', rightArgument⟩ := right
  obtain rfl : function = function' := by
    cases function <;> cases function' <;>
      first | rfl | simp [AggregateFunction.spelling] at functions
  cases distinct with
  | true =>
      cases distinct' with
      | true =>
          have texts := List.append_cancel_left insides
          rw [unplaced, unplaced, argument.unplaced_eq argument' texts]
      | false => exact absurd insides (distinct_text_ne argument' _)
  | false =>
      cases distinct' with
      | true => exact absurd insides.symm (distinct_text_ne argument _)
      | false => rw [unplaced, unplaced, argument.unplaced_eq argument' insides]

/-- An aggregate goes on with a parenthesis behind its first name. -/
theorem argument_ne_aggregate {argument : AggregateArgument} (formed : argument.WellFormed)
    {aggregate : Aggregate} (formed' : aggregate.WellFormed) :
    argument.text ≠ aggregate.spelling.toList := by
  intro same
  obtain ⟨_, opened⟩ := formed.cut.inj (cut_aggregate formed') same
  exact argument.head?_behind.1 (opened ▸ rfl)

theorem ReturnExpression.unplaced_eq {left right : ReturnExpression} (formed : left.WellFormed)
    (formed' : right.WellFormed) (same : left.spelling = right.spelling) :
    left.unplaced = right.unplaced := by
  -- An expression that is no aggregate is spelled like the argument with the same parts.
  have texts := String.toList_inj.mpr same
  cases left with
  | property access =>
      have argument : (AggregateArgument.property access).WellFormed := formed
      cases right with
      | property other =>
          have argument' : (AggregateArgument.property other).WellFormed := formed'
          have same := AggregateArgument.property.inj (argument.unplaced_eq argument' texts)
          exact congrArg property same
      | element identifier =>
          have argument' : (AggregateArgument.element identifier).WellFormed := formed'
          exact nomatch argument.unplaced_eq argument' texts
      | aggregate aggregate => exact absurd texts (argument_ne_aggregate argument formed')
  | element identifier =>
      have argument : (AggregateArgument.element identifier).WellFormed := formed
      cases right with
      | property access =>
          have argument' : (AggregateArgument.property access).WellFormed := formed'
          exact nomatch argument.unplaced_eq argument' texts
      | element other =>
          have argument' : (AggregateArgument.element other).WellFormed := formed'
          have same := AggregateArgument.element.inj (argument.unplaced_eq argument' texts)
          exact congrArg element same
      | aggregate aggregate => exact absurd texts (argument_ne_aggregate argument formed')
  | aggregate aggregate =>
      cases right with
      | property access =>
          have argument' : (AggregateArgument.property access).WellFormed := formed'
          exact absurd texts.symm (argument_ne_aggregate argument' formed)
      | element identifier =>
          have argument' : (AggregateArgument.element identifier).WellFormed := formed'
          exact absurd texts.symm (argument_ne_aggregate argument' formed)
      | aggregate other =>
          exact congrArg ReturnExpression.aggregate (Aggregate.unplaced_eq formed formed' same)

/-- Without aliases, items with the same column have the same expression, up to places. -/
theorem WellFormed.unplaced_eq_of_columnName {query : DocumentGraph.Query}
    (formed : query.WellFormed)
    (unnamed : ∀ item ∈ query.projection.items, item.columnAlias = none) :
    ∀ left ∈ query.projection.items, ∀ right ∈ query.projection.items,
      left.columnName = right.columnName →
        left.expression.unplaced = right.expression.unplaced := by
  intro left member right member' same
  rw [ReturnItem.columnName, ReturnItem.columnName, unnamed left member,
    unnamed right member'] at same
  exact ReturnExpression.unplaced_eq (formed.items left member).expression
    (formed.items right member').expression same

end DocumentGraph.Query
