import DocumentGraph.Document.Build
import DocumentGraph.Evaluate.Property
import DocumentGraph.Proofs.Ordered

namespace DocumentGraph

/-! What queries see of the properties that every document has.

A document has a name and a type: those that its front matter declares, or else computed ones.  A
computed value is kept under the key itself, while a query takes the first key that is the same in
lower case.  So a null under another spelling of the key hides the computed value.
-/

/-- The first property whose name is `wanted` in lower case, with its name as it is written. -/
def PropertyBag.first? (bag : PropertyBag) (wanted : String) : Option (String × Property) :=
  List.find? (fun pair => lowerCase pair.1 = wanted) bag

theorem PropertyBag.find?_eq (bag : PropertyBag) (wanted : String) :
    bag.find? wanted = (bag.first? wanted).map Prod.snd :=
  rfl

/-- NULL and the empty text give way to a computed value. -/
def Property.isBlank : Property → Bool
  | null => true
  | string text => text = ""
  | _ => false

/-- What stands under a key in any letter case, with a value computed for the key, when the first
such key was declared with the given spelling and value. -/
def Property.filled (key : String) (computed : Property) : Option (String × Property) → Property
  | none => computed
  | some (written, declared) =>
      if written = key ∧ declared.isBlank = true then computed else declared

variable {node : Node} {key wanted : String}

/-- A name that stands for no field and no search tokens is looked up in the property bag. -/
theorem Node.property?_of_stored {name : String}
    (stored : lowerCase name ∉ ["id", "labels", "skill", "path", "aliases", "keywords"]) :
    node.property? name =
      (PropertyBag.find? node.properties (lowerCase name)).map Value.ofProperty := by
  unfold property?
  dsimp only
  split <;> simp_all

namespace Document

theorem fillMissing_none (key : String) (node : Node) : fillMissing key none node = node := by
  unfold fillMissing
  split <;> rfl

theorem fillMissing_some (key : String) (value : Property) (node : Node) :
    fillMissing key (some value) node =
      if (node.properties.lookup key).all Property.isBlank then node.putProperty key value
      else node := by
  unfold fillMissing
  split
  · rename_i absent
    simp [absent]
  · rename_i null
    simp [null, Property.isBlank]
  · rename_i empty
    simp [empty, Property.isBlank]
  · rename_i declared notNull notEmpty found
    have full : declared.isBlank = false := by
      cases declared with
      | null => exact absurd rfl notNull
      | string text =>
          have text : text ≠ "" := fun empty => notEmpty (congrArg Property.string empty)
          simpa [Property.isBlank] using text
      | _ => rfl
    simp [found, full]

theorem first?_putProperty (other : lowerCase key ≠ wanted) (value : Property) (node : Node) :
    PropertyBag.first? (node.putProperty key value).properties wanted =
      PropertyBag.first? node.properties wanted :=
  Ordered.find?_put_of_not (fun written => lowerCase written = wanted) (by simpa using other)
    value node.properties

theorem first?_fillMissing (other : lowerCase key ≠ wanted) (value : Option Property)
    (node : Node) :
    PropertyBag.first? (fillMissing key value node).properties wanted =
      PropertyBag.first? node.properties wanted := by
  cases value with
  | none => rw [fillMissing_none]
  | some value =>
      rw [fillMissing_some]
      split
      · exact first?_putProperty other value node
      · rfl

/-- The key itself decides whether a value is filled in, its first spelling decides what is
found. -/
theorem find?_fillMissing (plain : lowerCase key = key) (value : Property) (node : Node) :
    PropertyBag.find? (fillMissing key (some value) node).properties key =
      some (value.filled key (PropertyBag.first? node.properties key)) := by
  have put : PropertyBag.first? (node.putProperty key value).properties key =
      some (((PropertyBag.first? node.properties key).filter (·.1 ≠ key)).getD (key, value)) :=
    Ordered.find?_put (fun written => lowerCase written = key) (decide_eq_true plain) value
      node.properties
  have lookup (declared : Property)
      (found : PropertyBag.first? node.properties key = some (key, declared)) :
      node.properties.lookup key = some declared :=
    Ordered.lookup_of_find? (fun written => lowerCase written = key) found
  rw [PropertyBag.find?_eq, fillMissing_some]
  cases first : PropertyBag.first? node.properties key with
  | none =>
      have absent : node.properties.lookup key = none := by
        rw [List.lookup_eq_none_iff]
        intro pair member
        have apart := List.find?_eq_none.mp first pair member
        simpa using fun same : key = pair.1 => by simp [← same, plain] at apart
      rw [if_pos (by rw [absent]; rfl), put, first]
      rfl
  | some pair =>
      obtain ⟨written, declared⟩ := pair
      rw [first] at put
      by_cases same : written = key
      · subst same
        rw [lookup declared first, Option.all_some]
        split
        · rename_i blank
          rw [put, Property.filled, if_pos ⟨rfl, blank⟩]
          simp [Option.filter]
        · rename_i full
          rw [first, Property.filled, if_neg fun both => full both.2]
          rfl
      · have kept : value.filled key (some (written, declared)) = declared :=
          if_neg fun both => same both.1
        rw [kept]
        split
        · rw [put]
          simp [Option.filter, same]
        · rw [first]
          rfl

/-- The properties that every document has, with their values where none is declared. -/
def fallbacks (options : Options) (path : List String) : List (String × String) :=
  let relative := String.intercalate "/" path
  [("name", stemOf (String.ofList (Text.dropEnd options.suffix.toList relative.toList))),
    ("type", String.ofList ((labelOf options path).toList.map Char.toLower))]

variable {options : Options} {path : List String} {fallback : String}

theorem find?_documentNode (member : (key, fallback) ∈ fallbacks options path)
    (skill content : String) :
    PropertyBag.find? (documentNode options skill path content).properties key =
      some (Property.filled key (.string fallback)
        (PropertyBag.first? (FrontMatter.properties content.toList) key)) := by
  unfold documentNode
  rcases List.mem_pair.mp member with same | same
  · obtain ⟨rfl, rfl⟩ := Prod.mk.inj same
    rw [PropertyBag.find?_eq, first?_fillMissing (by decide), first?_fillMissing (by decide),
      ← PropertyBag.find?_eq, find?_fillMissing (by decide), first?_putProperty (by decide),
      first?_putProperty (by decide)]
  · obtain ⟨rfl, rfl⟩ := Prod.mk.inj same
    rw [PropertyBag.find?_eq, first?_fillMissing (by decide), ← PropertyBag.find?_eq,
      find?_fillMissing (by decide), first?_fillMissing (by decide),
      first?_putProperty (by decide), first?_putProperty (by decide)]

theorem property_eq_filled {name : String}
    (member : (lowerCase name, fallback) ∈ fallbacks options path) (skill content : String) :
    (documentNode options skill path content).property name =
      pure (Value.ofProperty (Property.filled (lowerCase name) (.string fallback)
        (PropertyBag.first? (FrontMatter.properties content.toList) (lowerCase name)))) := by
  have stored : lowerCase name ∉ ["id", "labels", "skill", "path", "aliases", "keywords"] := by
    rcases List.mem_pair.mp member with same | same
    · rw [(Prod.mk.inj same).1]
      decide
    · rw [(Prod.mk.inj same).1]
      decide
  rw [Node.property, Node.property?_of_stored stored, find?_documentNode member]
  rfl

theorem ofProperty_filled_eq_null_iff (declared : Option (String × Property)) :
    Value.ofProperty (Property.filled key (.string fallback) declared) = .null ↔
      ∃ written, written ≠ key ∧ declared = some (written, .null) := by
  have null (property : Property) : Value.ofProperty property = .null ↔ property = .null := by
    cases property <;> simp [Value.ofProperty]
  rw [null]
  match declared with
  | none => simp [Property.filled]
  | some (written, property) =>
      by_cases settled : written = key ∧ property.isBlank = true
      · simp [Property.filled, settled]
      · rw [Property.filled, if_neg settled]
        constructor
        · rintro rfl
          exact ⟨written, fun same => settled ⟨same, rfl⟩, rfl⟩
        · rintro ⟨_, _, ⟨⟩⟩
          rfl

/-- A query for the name or the type of a document, in any letter case, finds the first declared
spelling, or the computed value, which takes the place of NULL and the empty text under the key
itself.  So it finds NULL only where NULL is declared first and under another spelling. -/
theorem property_documentNode (options : Options) (skill : String) (path : List String)
    (content : String) {name fallback : String}
    (member : (lowerCase name, fallback) ∈ fallbacks options path) :
    let declared := PropertyBag.first? (FrontMatter.properties content.toList) (lowerCase name)
    let found := (documentNode options skill path content).property name
    found = pure (.ofProperty (Property.filled (lowerCase name) (.string fallback) declared)) ∧
      (found.value = .null ↔
        ∃ written, written ≠ lowerCase name ∧ declared = some (written, .null)) := by
  intro declared found
  have settled := property_eq_filled member skill content
  refine ⟨settled, ?_⟩
  rw [show found = _ from settled, Noted.value_pure]
  exact ofProperty_filled_eq_null_iff declared

/-- The query spells the key in its own way, and the front matter has a blank name. -/
theorem property_documentNode_blankName :
    (lowerCase "NAME", "intro") ∈ fallbacks {} ["alpha", "nodes", "intro.md"] ∧
    ((documentNode {} "alpha" ["alpha", "nodes", "intro.md"] "---\nname:\n---\n").property
      "NAME").value = .string "intro" := by
  have member : (lowerCase "NAME", "intro") ∈ fallbacks {} ["alpha", "nodes", "intro.md"] := by
    decide
  have declared : PropertyBag.first? (FrontMatter.properties "---\nname:\n---\n".toList)
      (lowerCase "NAME") = some ("name", .null) := by decide +kernel
  obtain ⟨found, _⟩ := property_documentNode {} "alpha" ["alpha", "nodes", "intro.md"]
    "---\nname:\n---\n" member
  rw [declared] at found
  exact ⟨member, congrArg Noted.value found⟩

/-- A name is filled in, but a query finds the NULL under the other spelling. -/
theorem property_documentNode_hidden :
    let node := documentNode {} "alpha" ["alpha", "nodes", "intro.md"] "---\nName:\n---\n"
    node.properties.lookup "name" = some (.string "intro") ∧
      (node.property "name").value = .null := by
  have declared : PropertyBag.first? (FrontMatter.properties "---\nName:\n---\n".toList)
      (lowerCase "name") = some ("Name", .null) := by decide +kernel
  have member : (lowerCase "name", "intro") ∈ fallbacks {} ["alpha", "nodes", "intro.md"] := by
    decide
  have found := property_eq_filled member "alpha" "---\nName:\n---\n"
  rw [declared] at found
  exact ⟨by decide +kernel, congrArg Noted.value found⟩

end Document

end DocumentGraph
