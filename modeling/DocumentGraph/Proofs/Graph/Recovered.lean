import DocumentGraph.Graph.Json
import DocumentGraph.Graph.Read
import DocumentGraph.Proofs.Json.Layout
import DocumentGraph.Proofs.Ordered

namespace DocumentGraph

open Json (Exact Layout Reader)
open Json.Reader (Reads keyed)

/-! Nodes read back from their JSON texts.

A property has no mark of its kind in its JSON form.  The kinds are tried in order, so a property
is read back as it was if no kind in front of its own takes its form.  One form can be taken by two
kinds, since an integer can stand for a floating-point number; but integers are tried first.
-/

namespace Property

def kind : Property → Kind
  | null => .null
  | boolean _ => .boolean
  | integer _ => .integer
  | float _ => .float
  | string _ => .string
  | list _ => .list

theorem mapM_text? (items : List String) :
    (items.map Json.string).mapM Json.text? = some items := by
  induction items with
  | nil => rfl
  | cons item items ih => simp [Json.text?, ih]

theorem property?_toJson (property : Property) :
    property.kind.property? property.toJson = some property := by
  cases property with
  | null => rfl
  | boolean value => rfl
  | integer value =>
      change (if Int64.minValue.toInt ≤ value.toInt ∧ value.toInt ≤ Int64.maxValue.toInt then
        some (integer (Int64.ofInt value.toInt)) else none) = _
      rw [if_pos ⟨value.minValue_le_toInt, value.toInt_le⟩, Int64.ofInt_toInt]
  | float value => rfl
  | string value => rfl
  | list items =>
      change ((items.map Json.string).mapM Json.text?).map list = _
      rw [mapM_text?]
      rfl

/-- The form of a property is taken by its own kind and, for integers, as a floating-point
number. -/
theorem isSome_property?_toJson {property : Property} {kind : Kind} :
    (kind.property? property.toJson).isSome ↔
      kind = property.kind ∨ kind = .float ∧ property.kind = .integer := by
  constructor
  · intro taken
    cases property <;> cases kind <;>
      simp [Kind.property?, toJson, Json.ofList, Property.kind] at taken ⊢
  · rintro (rfl | ⟨rfl, sort⟩)
    · rw [property?_toJson]
      rfl
    · cases property with
      | integer value => rfl
      | _ => contradiction

/-- No kind in front of its own takes the form of a property. -/
theorem property?_eq_none_of_before (property : Property) {earlier : Kind}
    (before : earlier ∈ Kind.all.takeWhile (· ≠ property.kind)) :
    earlier.property? property.toJson = none := by
  have apart : ∀ own, ∀ earlier ∈ Kind.all.takeWhile (· ≠ own),
      ¬ (earlier = own ∨ earlier = .float ∧ own = .integer) := by
    intro own
    cases own <;> decide
  rw [← Option.not_isSome_iff_eq_none, isSome_property?_toJson]
  exact apart property.kind earlier before

theorem ofJson?_toJson (property : Property) : ofJson? property.toJson = some property := by
  have split (kind : Kind) : Kind.all =
      Kind.all.takeWhile (· ≠ kind) ++ kind :: (Kind.all.dropWhile (· ≠ kind)).tail := by
    cases kind <;> rfl
  exact List.findSome?_eq_some_iff.mpr ⟨_, _, _, split property.kind, property.property?_toJson,
    fun earlier before => property.property?_eq_none_of_before before⟩

theorem exact_toJson {property : Property} (floatless : property.kind ≠ .float) :
    Exact property.toJson := by
  cases property with
  | null => exact .null
  | boolean value => exact .boolean value
  | integer value =>
      have low := value.minValue_le_toInt
      have high := value.toInt_le
      exact .integer low (Int.lt_of_le_of_lt high (by decide))
  | float value => contradiction
  | string value => exact .string value
  | list items =>
      refine .array fun item member => ?_
      obtain ⟨text, _, rfl⟩ := List.mem_map.mp member
      exact .string text

theorem reads_reader (layout : Layout) {property : Property} (floatless : property.kind ≠ .float)
    (depth : Nat) : Reads reader (layout.text depth property.toJson) property where
  begins := (Json.Reader.reads_value layout (exact_toJson floatless) depth).begins
  read := by
    intro gap behind blank ends
    have taken := Json.Reader.reads_value layout (exact_toJson floatless) depth
    rw [reader, taken.bind_of blank ends, ofJson?_toJson]
    rfl

end Property

theorem PropertyBag.reads_reader (layout : Layout) {bag : PropertyBag}
    (distinct : (bag.map Prod.fst).Nodup) (floatless : ∀ entry ∈ bag, entry.2.kind ≠ .float)
    (depth : Nat) : Reads reader (layout.text depth bag.toJson) bag := by
  obtain ⟨back, blank, written⟩ := layout.object depth
    (bag.map fun entry => (entry.1, entry.2.toJson))
  have each : List.Forall₂ (Reads (Reader.member Property.reader))
      (bag.map fun entry =>
        keyed layout.space entry.1 (layout.text (depth + 1) entry.2.toJson)) bag := by
    rw [List.forall₂_map_left_iff, List.forall₂_same]
    intro entry stored
    exact Json.Reader.reads_member layout.blank_space
      (Property.reads_reader layout (floatless entry stored) (depth + 1))
  have pairs : Reads (Reader.delimited '\x7b' '\x7d' (Reader.member Property.reader)) _ bag :=
    Json.Reader.reads_delimited (by decide) (by decide) (layout.blank_gap (depth + 1)) blank each
  have kept := pairs.map Ordered.ofPairs
  rw [Ordered.ofPairs_eq_self distinct] at kept
  rw [PropertyBag.toJson, written, List.map_map]
  exact kept

namespace Node

theorem reads_text (layout : Layout) (text : String) (depth : Nat) :
    Reads Reader.string (layout.text depth (.string text)) text := by
  rw [layout.scalar depth rfl]
  exact Json.Reader.reads_string text

theorem reads_labelsReader (layout : Layout) (labels : List String) (depth : Nat) :
    Reads labelsReader (layout.text depth (Json.ofList .string labels)) labels := by
  obtain ⟨back, blank, written⟩ := layout.array depth (labels.map .string)
  have each : List.Forall₂ (Reads Reader.string)
      (labels.map fun label => layout.text (depth + 1) (.string label)) labels := by
    rw [List.forall₂_map_left_iff, List.forall₂_same]
    exact fun label _ => reads_text layout label (depth + 1)
  rw [Json.ofList, written, List.map_map]
  exact Json.Reader.reads_delimited (by decide) (by decide) (layout.blank_gap _) blank each

section Written

variable (layout : Layout) (node : Node) (distinct : (node.properties.map Prod.fst).Nodup)
  (floatless : ∀ entry ∈ node.properties, entry.2.kind ≠ .float)

include distinct floatless

theorem reads_fields (depth : Nat) :
    List.Forall₂ (Reads fieldReader)
      [keyed layout.space "id" (layout.text depth (.string node.id)),
        keyed layout.space "labels" (layout.text depth (Json.ofList .string node.labels)),
        keyed layout.space "properties" (layout.text depth (PropertyBag.toJson node.properties)),
        keyed layout.space "skill" (layout.text depth (.string node.skill)),
        keyed layout.space "path" (layout.text depth (.string node.path))]
      [.id node.id, .labels node.labels, .properties node.properties, .skill node.skill,
        .path node.path] := by
  have space := layout.blank_space
  refine .cons ?_ (.cons ?_ (.cons ?_ (.cons ?_ (.cons ?_ .nil))))
  · exact Json.Reader.reads_keyed space ((reads_text layout node.id depth).map Field.id)
  · exact Json.Reader.reads_keyed space
      ((reads_labelsReader layout node.labels depth).map Field.labels)
  · exact Json.Reader.reads_keyed space
      ((PropertyBag.reads_reader layout distinct floatless depth).map Field.properties)
  · exact Json.Reader.reads_keyed space ((reads_text layout node.skill depth).map Field.skill)
  · exact Json.Reader.reads_keyed space ((reads_text layout node.path depth).map Field.path)

theorem reads_objectReader (depth : Nat) :
    Reads objectReader (layout.text depth node.toJson) node := by
  obtain ⟨back, blank, written⟩ := layout.object depth _
  have fields : Reads (Reader.delimited '\x7b' '\x7d' fieldReader) (layout.text depth node.toJson)
      [.id node.id, .labels node.labels, .properties node.properties, .skill node.skill,
        .path node.path] := by
    rw [toJson, written]
    exact Json.Reader.reads_delimited (by decide) (by decide) (layout.blank_gap (depth + 1)) blank
      (reads_fields layout node distinct floatless (depth + 1))
  refine ⟨fields.begins, fun skipped ends => ?_⟩
  rw [objectReader, fields.bind_of skipped ends]
  rfl

theorem ofJsonText?_layout :
    ofJsonText? (String.ofList (layout.text 0 node.toJson)) = some node := by
  have taken := (reads_objectReader layout node distinct floatless 0).read_all
  obtain ⟨rest, opened⟩ : ∃ rest, layout.text 0 node.toJson = '\x7b' :: rest := by
    obtain ⟨back, _, written⟩ := layout.object 0 _
    exact ⟨_, written⟩
  have ahead : ('\x7b' :: rest).dropWhile Reader.isBlank = '\x7b' :: rest :=
    Json.Reader.dropWhile_visible (by decide) rest
  rw [opened] at taken ⊢
  unfold ofJsonText?
  rw [String.toList_ofList]
  dsimp only
  rw [Json.Reader.peek_bind ahead, if_neg (by decide), Json.Reader.bind_of_some taken]
  rfl

end Written

/-- A node without floating-point properties and with a key for each property is read back from
both of its texts as it was, with its properties in their order.  Each property is taken by its
own kind, and by none that is tried before it. -/
theorem recovered_toJson (node : Node) (distinct : (node.properties.map Prod.fst).Nodup)
    (floatless : ∀ entry ∈ node.properties, entry.2.kind ≠ .float) :
    ofJsonText? node.toJson.compact = some node ∧
    ofJsonText? node.toJson.pretty = some node ∧
    ∀ entry ∈ node.properties,
      entry.2.kind.property? entry.2.toJson = some entry.2 ∧
      ∀ earlier ∈ Property.Kind.all.takeWhile (· ≠ entry.2.kind),
        earlier.property? entry.2.toJson = none := by
  refine ⟨?_, ?_, fun entry _ => ⟨entry.2.property?_toJson, fun earlier before => ?_⟩⟩
  · exact ofJsonText?_layout .compact node distinct floatless
  · exact ofJsonText?_layout .pretty node distinct floatless
  · exact entry.2.property?_eq_none_of_before before

/-- Strings and lists that look like other values, and characters that a string has to escape. -/
def lookalikes : Node where
  id := "a\"\\/\n\x01\u00e9"
  labels := ["Node", "", "[]"]
  properties := [
    ("word", .string "null"),
    ("nothing", .null),
    ("no", .string "false"),
    ("false", .boolean false),
    ("digits", .string "-1"),
    ("least", .integer Int64.minValue),
    ("greatest", .integer Int64.maxValue),
    ("brackets", .string "[\"a\"]"),
    ("none", .list []),
    ("some", .list ["1", "null", ",\t\""])]
  skill := "alpha"
  path := "alpha/nodes/a.md"

theorem recovered_toJson_lookalikes :
    (lookalikes.properties.map Prod.fst).Nodup ∧
    (∀ entry ∈ lookalikes.properties, entry.2.kind ≠ .float) ∧
    ofJsonText? lookalikes.toJson.compact = some lookalikes ∧
    ofJsonText? lookalikes.toJson.pretty = some lookalikes ∧
    ∀ entry ∈ lookalikes.properties,
      entry.2.kind.property? entry.2.toJson = some entry.2 ∧
      ∀ earlier ∈ Property.Kind.all.takeWhile (· ≠ entry.2.kind),
        earlier.property? entry.2.toJson = none :=
  ⟨by decide, by decide, recovered_toJson lookalikes (by decide) (by decide)⟩

end Node

end DocumentGraph
