import DocumentGraph.Proofs.Json.Scalar

namespace DocumentGraph.Json

open Reader (Blank Reads bracketed keyed)

/-! Values read back from their texts.

A value is read back from every layout if nothing in it is a floating-point number: those that
are not finite are written as `null`, and the digits of the others may be read with an error in
the last bit.
-/

def isScalar : Json → Bool
  | array _ => false
  | object _ => false
  | _ => true

/-- A way of writing values.  Blanks stand in front of items and members, in front of closing
brackets and behind colons. -/
structure Layout where
  /-- The text of a value that stands at some depth. -/
  text : Nat → Json → List Char
  /-- The blanks in front of what stands at some depth. -/
  gap : Nat → List Char
  space : List Char
  blank_gap : ∀ depth, Blank (gap depth)
  blank_space : Blank space
  scalar : ∀ depth {json : Json}, json.isScalar → text depth json = scalarText json
  array : ∀ depth items, ∃ back, Blank back ∧
    text depth (.array items) =
      bracketed (gap (depth + 1)) back '[' ']' (items.map (text (depth + 1)))
  object : ∀ depth members, ∃ back, Blank back ∧
    text depth (.object members) =
      bracketed (gap (depth + 1)) back '\x7b' '\x7d'
        (members.map fun member => keyed space member.1 (text (depth + 1) member.2))

namespace Layout

/-- Texts that are written one after another with commas between them. -/
theorem eq_intercalate {α : Type} {write : List α → List Char} {text : α → List Char}
    (nil : write [] = []) (single : ∀ item, write [item] = text item)
    (more : ∀ item next items,
      write (item :: next :: items) = text item ++ ',' :: write (next :: items))
    (items : List α) : write items = [','].intercalate (items.map text) := by
  induction items with
  | nil => exact nil
  | cons item items ih =>
      cases items with
      | nil => rw [single, List.map_singleton, List.intercalate_singleton]
      | cons next items =>
          rw [more, ih, List.map_cons, List.map_cons, List.map_cons, List.intercalate_cons_cons,
            List.append_assoc]
          rfl

theorem compactItems_eq (items : List Json) :
    compactItems items = [','].intercalate (items.map compactChars) :=
  eq_intercalate rfl (fun _ => by rw [compactItems]) (fun _ _ _ => by rw [compactItems]; simp) items

theorem compactMembers_eq (members : List (String × Json)) :
    compactMembers members =
      [','].intercalate (members.map fun member => keyed [] member.1 (compactChars member.2)) :=
  eq_intercalate rfl (fun _ => by rw [compactMembers]; rfl)
    (fun _ _ _ => by rw [compactMembers] <;> simp [keyed]) members

theorem prettyItems_eq (depth : Nat) (items : List Json) :
    prettyItems depth items =
      [','].intercalate (items.map fun item => lineBreak depth ++ prettyChars depth item) :=
  eq_intercalate rfl (fun _ => by rw [prettyItems]) (fun _ _ _ => by rw [prettyItems]; simp) items

theorem prettyMembers_eq (depth : Nat) (members : List (String × Json)) :
    prettyMembers depth members =
      [','].intercalate (members.map fun member =>
        lineBreak depth ++ keyed [' '] member.1 (prettyChars depth member.2)) :=
  eq_intercalate rfl (fun _ => by rw [prettyMembers]; simp [keyed])
    (fun _ _ _ => by rw [prettyMembers] <;> simp [keyed]) members

def compact : Layout where
  text _ := compactChars
  gap _ := []
  space := []
  blank_gap _ := Reader.blank_nil
  blank_space := Reader.blank_nil
  scalar _ json scalar := by
    cases json with
    | array items => contradiction
    | object members => contradiction
    | _ => rfl
  array _ items := by
    refine ⟨[], Reader.blank_nil, ?_⟩
    rw [compactChars, compactItems_eq, bracketed]
    simp [Function.comp_def]
  object _ members := by
    refine ⟨[], Reader.blank_nil, ?_⟩
    rw [compactChars, compactMembers_eq, bracketed]
    simp [Function.comp_def]

theorem blank_lineBreak (depth : Nat) : Blank (lineBreak depth) := by
  intro c member
  rcases List.mem_cons.mp member with rfl | spaces
  · rfl
  · rw [List.eq_of_mem_replicate spaces]
    rfl

def pretty : Layout where
  text := prettyChars
  gap := lineBreak
  space := [' ']
  blank_gap := blank_lineBreak
  blank_space := by
    intro c member
    rw [List.mem_singleton.mp member]
    rfl
  scalar _ json scalar := by
    cases json with
    | array items => contradiction
    | object members => contradiction
    | _ => rfl
  array depth items := by
    cases items with
    | nil => exact ⟨[], Reader.blank_nil, rfl⟩
    | cons item items =>
        refine ⟨lineBreak depth, blank_lineBreak depth, ?_⟩
        rw [prettyChars, prettyItems_eq, bracketed, List.map_map]
        simp [Function.comp_def]
  object depth members := by
    cases members with
    | nil => exact ⟨[], Reader.blank_nil, rfl⟩
    | cons member members =>
        refine ⟨lineBreak depth, blank_lineBreak depth, ?_⟩
        rw [prettyChars, prettyMembers_eq, bracketed, List.map_map]
        simp [Function.comp_def]

end Layout

/-- Nothing in the value is a floating-point number, and 64 bits hold each integer in it, with
or without a sign. -/
inductive Exact : Json → Prop where
  | null : Exact .null
  | boolean (value : Bool) : Exact (.boolean value)
  | integer {value : Int} (low : -Nat.pow 2 63 ≤ value) (high : value < Nat.pow 2 64) :
      Exact (.integer value)
  | string (value : String) : Exact (.string value)
  | array {items : List Json} (each : ∀ item ∈ items, Exact item) : Exact (.array items)
  | object {members : List (String × Json)} (each : ∀ member ∈ members, Exact member.2) :
      Exact (.object members)

namespace Reader

variable {bound : Nat}

theorem reads_null : Reads (valueUpTo (bound + 1)) "null".toList .null :=
  (reads_word "null" ⟨'n', _, rfl, by decide⟩ Json.null).congr fun ahead => by
    rw [valueUpTo, peek_bind ahead]
    rfl

theorem reads_boolean (value : Bool) :
    Reads (valueUpTo (bound + 1)) (scalarText (.boolean value)) (.boolean value) := by
  cases value with
  | true =>
      have taken := reads_word "true" ⟨'t', _, rfl, by decide⟩ (Json.boolean true)
      refine taken.congr fun ahead => ?_
      rw [valueUpTo, peek_bind ahead]
      rfl
  | false =>
      have taken := reads_word "false" ⟨'f', _, rfl, by decide⟩ (Json.boolean false)
      refine taken.congr fun ahead => ?_
      rw [valueUpTo, peek_bind ahead]
      rfl

theorem reads_text (value : String) :
    Reads (valueUpTo (bound + 1)) (quote value) (.string value) :=
  ((reads_string value).map Json.string).congr fun ahead => by
    rw [valueUpTo, peek_bind ahead]
    rfl

/-- A minus sign and digits begin no other value than a number. -/
theorem valueUpTo_number {c : Char} {input rest : List Char}
    (ahead : input.dropWhile isBlank = c :: rest) (number : c = '-' ∨ c.isDigit = true) :
    valueUpTo (bound + 1) input = (do
      match (← numeral).toJson? with
      | some value => return value
      | none => failure : Reader Json) (c :: rest) := by
  rw [valueUpTo, peek_bind ahead]
  refine congrFun ?_ _
  split
  case h_7 => rfl
  all_goals
    rename_i same
    obtain rfl := Option.some.inj same
    exact absurd number (by decide)

theorem reads_integer {value : Int} (low : -Nat.pow 2 63 ≤ value) (high : value < Nat.pow 2 64) :
    Reads (valueUpTo (bound + 1)) (toString value).toList (.integer value) := by
  have taken : Reads (do
      match (← numeral).toJson? with
      | some value => return value
      | none => failure : Reader Json) (toString value).toList (.integer value) := by
    refine ⟨(reads_toString value).begins, fun blank ends => ?_⟩
    rw [(reads_toString value).bind_of blank ends, Numeral.toJson?_ofInt low high]
    rfl
  refine taken.congr fun {input rest} ahead => ?_
  obtain ⟨c, more, written, number⟩ := exists_of_toString value
  rw [written] at ahead ⊢
  exact valueUpTo_number ahead number

theorem reads_array {items : List Json} {texts : List (List Char)} {front back : List Char}
    (before : Blank front) (blank : Blank back)
    (reads : List.Forall₂ (Reads (valueUpTo bound)) texts items) :
    Reads (valueUpTo (bound + 1)) (bracketed front back '[' ']' texts) (.array items) :=
  ((reads_delimited (by decide) (by decide) before blank reads).map Json.array).congr
    fun ahead => by
      rw [valueUpTo, peek_bind ahead]
      rfl

theorem reads_object {members : List (String × Json)} {texts : List (List Char)}
    {front back : List Char} (before : Blank front) (blank : Blank back)
    (reads : List.Forall₂ (Reads (member (valueUpTo bound))) texts members) :
    Reads (valueUpTo (bound + 1)) (bracketed front back '\x7b' '\x7d' texts) (.object members) :=
  ((reads_delimited (by decide) (by decide) before blank reads).map Json.object).congr
    fun ahead => by
      rw [valueUpTo, peek_bind ahead]
      rfl

theorem reads_valueUpTo (layout : Layout) {json : Json} (exact : Exact json) (depth : Nat)
    (enough : (layout.text depth json).length ≤ bound) :
    Reads (valueUpTo (bound + 1)) (layout.text depth json) json := by
  -- An item is shorter than the list it stands in, so the bound that is left is enough for it.
  induction exact generalizing bound depth with
  | null =>
      rw [layout.scalar depth rfl]
      exact reads_null
  | boolean value =>
      rw [layout.scalar depth rfl]
      exact reads_boolean value
  | integer low high =>
      rw [layout.scalar depth rfl]
      exact reads_integer low high
  | string value =>
      rw [layout.scalar depth rfl]
      exact reads_text value
  | array each ih =>
      obtain ⟨back, blank, written⟩ := layout.array depth _
      rw [written] at enough ⊢
      refine reads_array (layout.blank_gap _) blank ?_
      rw [List.forall₂_map_left_iff, List.forall₂_same]
      intro item member
      have shorter := Nat.lt_of_lt_of_le (length_lt_bracketed (List.mem_map_of_mem member)) enough
      cases bound with
      | zero => contradiction
      | succ bound => exact ih item member (depth + 1) (Nat.le_of_lt_succ shorter)
  | object each ih =>
      obtain ⟨back, blank, written⟩ := layout.object depth _
      rw [written] at enough ⊢
      refine reads_object (layout.blank_gap _) blank ?_
      rw [List.forall₂_map_left_iff, List.forall₂_same]
      intro member stored
      have shorter := Nat.lt_of_lt_of_le (length_lt_bracketed (List.mem_map_of_mem stored)) enough
      have inside := length_le_keyed layout.space member.1 (layout.text (depth + 1) member.2)
      cases bound with
      | zero => contradiction
      | succ bound =>
          exact reads_member layout.blank_space
            (ih member stored (depth + 1) (Nat.le_of_lt_succ (Nat.lt_of_le_of_lt inside shorter)))

/-- An exact value is read from every layout. -/
theorem reads_value (layout : Layout) {json : Json} (exact : Exact json) (depth : Nat) :
    Reads value (layout.text depth json) json where
  begins := (reads_valueUpTo layout exact depth (Nat.le_refl _)).begins
  read := by
    intro gap behind blank ends
    rw [value, get_bind]
    refine (reads_valueUpTo layout exact depth ?_).read blank ends
    simp only [List.length_append]
    omega

end Reader

end DocumentGraph.Json
