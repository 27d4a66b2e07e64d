import DocumentGraph.Evaluate.Compare
import DocumentGraph.Evaluate.Property

namespace DocumentGraph

open Query (ComparisonOperator Literal)

/-! The values of properties.

A property is a scalar or a list of texts.  So a literal that is no text is met by a property
exactly when a condition finds the two equal: no list contains it, and none is equal to it.
-/

namespace Value

/-- A scalar or a list of texts. -/
def Flat : Value → Prop
  | list items => ∀ item ∈ items, ∃ text, item = string text
  | node _ => False
  | edge _ => False
  | _ => True

variable {value : Value}

theorem flat_texts (texts : List String) : Flat (list (texts.map string)) := by
  intro item member
  obtain ⟨text, _, same⟩ := List.mem_map.mp member
  exact ⟨text, same.symm⟩

theorem flat_ofProperty (property : Property) : (ofProperty property).Flat := by
  cases property with
  | list items => exact flat_texts items
  | _ => trivial

theorem flat_of_find? {bag : PropertyBag} {wanted : String}
    (found : (bag.find? wanted).map ofProperty = some value) : value.Flat := by
  obtain ⟨property, _, rfl⟩ := Option.map_eq_some_iff.mp found
  exact flat_ofProperty property

end Value

variable {value : Value}

theorem Node.flat_of_property? {node : Node} {name : String}
    (found : node.property? name = some value) : value.Flat := by
  have tokens {value : Value} (texts : ∃ texts : List String, value = .list (texts.map .string)) :
      value.Flat := by
    obtain ⟨texts, rfl⟩ := texts
    exact Value.flat_texts texts
  unfold property? at found
  dsimp only at found
  split at found
  · exact Option.some.inj found ▸ trivial
  · exact Option.some.inj found ▸ Value.flat_texts _
  · exact Option.some.inj found ▸ trivial
  · exact Option.some.inj found ▸ trivial
  · rcases Option.or_eq_some_iff.mp found with derived | ⟨_, stored⟩
    · exact tokens (texts_of_searchTokens? derived)
    · exact Value.flat_of_find? stored
  · rcases Option.or_eq_some_iff.mp found with stored | ⟨_, derived⟩
    · exact Value.flat_of_find? stored
    · exact tokens (texts_of_searchTokens? derived)
  · exact Value.flat_of_find? found

theorem Node.flat_property (node : Node) (name : String) : (node.property name).value.Flat := by
  unfold property
  cases found : node.property? name with
  | none => trivial
  | some value => exact flat_of_property? found

theorem Edge.flat_property (edge : Edge) (name : String) : (edge.property name).Flat := by
  unfold property
  dsimp only
  split
  · trivial
  · trivial
  · trivial
  · trivial
  · cases found : (PropertyBag.find? edge.properties (lowerCase name)).map Value.ofProperty with
    | none => trivial
    | some value => exact Value.flat_of_find? found

namespace Value

variable {value : Value} {literal : Literal}

/-- A list of texts neither contains nor is a literal that is no text. -/
theorem Flat.meets_list {items : List Value} (flat : Flat (list items))
    (scalar : ∀ text, literal ≠ .string text) : (list items).meets literal = false := by
  have apart : ∀ item ∈ items, item.equal (ofLiteral literal) = false := by
    intro item member
    obtain ⟨text, rfl⟩ := flat item member
    cases literal with
    | string text => exact absurd rfl (scalar text)
    | _ => rfl
  have none : (items.any fun item => item.equal (ofLiteral literal)) = false := by
    simpa using apart
  cases literal with
  | string text => exact absurd rfl (scalar text)
  | _ => exact none

theorem Flat.meets_null (flat : value.Flat) : value.meets .null = value.isNull := by
  cases value with
  | list items => exact flat.meets_list (by simp)
  | _ => rfl

/-- What a property map asks of a property is what an equation with the literal asks. -/
theorem Flat.apply_equals (flat : value.Flat) (scalar : ∀ text, literal ≠ .string text)
    (known : literal ≠ .null) :
    ComparisonOperator.equals.apply value (ofLiteral literal) = .ok (value.meets literal) := by
  cases value with
  | list items =>
      rw [flat.meets_list scalar]
      cases literal with
      | string text => exact absurd rfl (scalar text)
      | null => exact absurd rfl known
      | _ => rfl
  | _ =>
      cases literal with
      | string text => exact absurd rfl (scalar text)
      | null => exact absurd rfl known
      | _ => rfl

end Value

end DocumentGraph
