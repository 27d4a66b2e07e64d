import DocumentGraph.Proofs.Document.Fence
import DocumentGraph.Proofs.Ordered
import DocumentGraph.Proofs.Text.Blank
import DocumentGraph.Proofs.Text.Numeral
import Mathlib.Data.List.Forall2

namespace DocumentGraph.Document.FrontMatter

/-! Front matter that reads back.

A key, a colon and the written form of a value make a line that declares just this value.  Quotes
keep what stands in them, be it a number, a list, a comment or another quote.  So a document that
declares distinct keys has exactly these properties, in their order, and its body behind them.
-/

/-- A text between double quotes, as it is. -/
def quoted (text : String) : List Char :=
  '"' :: text.toList ++ ['"']

/-- Quoted items between brackets. -/
def bracketed (items : List String) : List Char :=
  '[' :: [',', ' '].intercalate (items.map quoted) ++ [']']

/-- The words that stand for values of their own. -/
def words : List (String × Property) :=
  [("", .null), ("~", .null), ("null", .null), ("true", .boolean true), ("True", .boolean true),
    ("TRUE", .boolean true), ("false", .boolean false), ("False", .boolean false),
    ("FALSE", .boolean false)]

/-- The written forms of values on one line. -/
inductive Spells : List Char → Property → Prop where
  | word {text : String} {value : Property} (known : (text, value) ∈ words) :
      Spells text.toList value
  | integer (number : Int64) : Spells (toString number.toInt).toList (.integer number)
  | string {text : String} (unbroken : '\n' ∉ text.toList) : Spells (quoted text) (.string text)
  | list {items : List String} (unbroken : ∀ item ∈ items, '\n' ∉ item.toList)
      (undivided : ∀ item ∈ items, ',' ∉ item.toList) : Spells (bracketed items) (.list items)

def declaration (key : String) (text : List Char) : List Char :=
  key.toList ++ ':' :: ' ' :: text

/-- A line that declares a value under a key that keeps its name. -/
inductive Declares : List Char → String × Property → Prop where
  | intro {key : String} {text : List Char} {value : Property} (valid : isKey key.toList = true)
      (kept : key ∉ ["allowed-tools", "argument-hint"]) (spells : Spells text value) :
      Declares (declaration key text) (key, value)

variable {raw text inner : List Char}

theorem value_eq (plain : String.ofList raw ∉ words.map Prod.fst) :
    value raw =
      match listItems? raw, quoted? raw, number? raw with
      | some items, _, _ => .list items
      | none, some inner, _ => .string (String.ofList inner)
      | none, none, some number => number
      | none, none, none => .string (String.ofList raw) := by
  unfold value
  split
  case h_10 => rfl
  all_goals simp_all [words]

/-- A text that begins like none of the words is none of them. -/
theorem not_mem_words {first : Char} (rest : List Char)
    (apart : ∀ word ∈ words, word.1.toList.head? ≠ some first) :
    String.ofList (first :: rest) ∉ words.map Prod.fst := by
  intro member
  obtain ⟨word, known, same⟩ := List.mem_map.mp member
  apply apart word known
  rw [same, String.toList_ofList, List.head?_cons]

theorem listItems?_of_ne {first : Char} (other : first ≠ '[') (rest : List Char) :
    listItems? (first :: rest) = none := by
  unfold listItems?
  split
  · rename_i same
    exact absurd (List.cons.inj same).1 other
  · rfl

theorem listItems?_append (inner : List Char) :
    listItems? ('[' :: inner ++ [']']) =
      if (Text.trim inner).isEmpty then some []
      else some ((Text.splitOn ',' inner).map fun item =>
        String.ofList (unquote (Text.trim item))) := by
  have closed : [']'].isSuffixOf? (inner ++ [']']) = some inner :=
    List.isSuffixOf?_eq_some_iff_append_eq.mpr rfl
  simp only [listItems?, List.cons_append, closed, Option.bind_eq_bind, Option.bind_some]
  rfl

theorem quoted?_quoted (text : String) : quoted? (quoted text) = some text.toList :=
  List.isSuffixOf?_eq_some_iff_append_eq.mpr rfl

theorem tight_quoted (text : String) : Text.Tight (quoted text) :=
  Text.Tight.of_ends (by decide) (by decide)

/-- Quotes keep what stands between them. -/
theorem value_quoted (text : String) : value (quoted text) = .string text := by
  have plain : String.ofList (quoted text) ∉ words.map Prod.fst :=
    not_mem_words _ (by decide)
  have noList : listItems? (quoted text) = none := listItems?_of_ne (by decide) _
  rw [value_eq plain, noList, quoted?_quoted]
  simp only [String.ofList_toList]

theorem intercalate_blank (first : List Char) (others : List (List Char)) :
    [',', ' '].intercalate (first :: others) =
      [','].intercalate (first :: others.map (' ' :: ·)) := by
  have blank (piece : List Char) (pieces : List (List Char)) :
      [','].intercalate ((' ' :: piece) :: pieces) =
        ' ' :: [','].intercalate (piece :: pieces) := by
    cases pieces with
    | nil => rw [List.intercalate_singleton, List.intercalate_singleton]
    | cons next pieces =>
        rw [List.intercalate_cons_cons, List.intercalate_cons_cons]
        rfl
  induction others generalizing first with
  | nil => rw [List.map_nil, List.intercalate_singleton, List.intercalate_singleton]
  | cons next others ih =>
      rw [List.intercalate_cons_cons, ih, List.map_cons, List.intercalate_cons_cons, blank]
      simp only [List.append_assoc, List.cons_append, List.nil_append]

theorem not_mem_quoted {text : String} {c : Char} (absent : c ∉ text.toList) (other : c ≠ '"') :
    c ∉ quoted text := by
  simp [quoted, absent, other]

/-- What a piece of a list stands for. -/
def itemOf (piece : List Char) : String :=
  String.ofList (unquote (Text.trim piece))

theorem itemOf_blank (piece : List Char) : itemOf (' ' :: piece) = itemOf piece := by
  rw [itemOf, Text.trim_cons (by decide), itemOf]

theorem itemOf_quoted (text : String) : itemOf (quoted text) = text := by
  rw [itemOf, (tight_quoted text).trim_eq, unquote, quoted?_quoted, Option.getD_some,
    String.ofList_toList]

theorem map_itemOf_splitOn_blank (text : List Char) :
    (Text.splitOn ',' (' ' :: text)).map itemOf = (Text.splitOn ',' text).map itemOf := by
  obtain ⟨piece, pieces, split⟩ := Text.exists_splitOn ',' text
  rw [split, Text.splitOn_cons_of_ne (by decide) split, List.map_cons, List.map_cons, itemOf_blank]

/-- Each quoted item of a list is read by itself, cut at its commas. -/
theorem value_bracketed (items : List String) :
    value (bracketed items) =
      .list (items.flatMap fun item => (Text.splitOn ',' (quoted item)).map itemOf) := by
  have plain : String.ofList (bracketed items) ∉ words.map Prod.fst :=
    not_mem_words _ (by decide)
  rw [value_eq plain, bracketed, listItems?_append]
  cases items with
  | nil => rfl
  | cons item items =>
      have filled : (Text.trim ([',', ' '].intercalate ((item :: items).map quoted))).isEmpty =
          false := by
        rw [List.isEmpty_eq_false_iff, List.map_cons, intercalate_blank]
        cases items with
        | nil => exact Text.trim_ne_nil (by decide) _
        | cons next items => exact Text.trim_ne_nil (by decide) _
      have read :
          (Text.splitOn ',' ([',', ' '].intercalate ((item :: items).map quoted))).map itemOf =
            (item :: items).flatMap fun item => (Text.splitOn ',' (quoted item)).map itemOf := by
        rw [List.map_cons, intercalate_blank,
          Text.splitOn_intercalate_flatMap (List.cons_ne_nil _ _), List.map_flatMap,
          List.flatMap_cons, List.flatMap_map, List.flatMap_map, List.flatMap_cons]
        simp only [map_itemOf_splitOn_blank]
      rw [filled]
      exact congrArg Property.list read

theorem map_itemOf_quoted {item : String} (undivided : ',' ∉ item.toList) :
    (Text.splitOn ',' (quoted item)).map itemOf = [item] := by
  rw [Text.splitOn_of_not_mem (not_mem_quoted undivided (by decide)), List.map_singleton,
    itemOf_quoted]

theorem value_list {items : List String} (undivided : ∀ item ∈ items, ',' ∉ item.toList) :
    value (bracketed items) = .list items := by
  have whole : ∀ item ∈ items, (Text.splitOn ',' (quoted item)).map itemOf = [item] :=
    fun item member => map_itemOf_quoted (undivided item member)
  rw [value_bracketed, List.flatMap_congr whole, List.flatMap_singleton']

theorem no_point_of_isDigits (decimal : Text.isDigits text = true) : ¬ ['.'] <:+: text := by
  intro point
  have digit := List.all_eq_true.mp (Bool.and_eq_true_iff.mp decimal).2 '.'
    (point.subset List.mem_cons_self)
  contradiction

theorem decimalParts?_of_isDigits (decimal : Text.isDigits text = true) :
    decimalParts? text = some (text, none) := by
  have whole : Text.cutAt? ['.'] text = none :=
    (Text.cutAt?_eq_none_iff (List.cons_ne_nil _ _)).mpr (no_point_of_isDigits decimal)
  rw [decimalParts?, whole]
  exact if_pos decimal

/-- Digits, with or without a minus sign, are read as the whole number that they denote. -/
theorem number?_of_digits {row : List Char} {absolute : Nat} (digits : Text.Digits row absolute)
    {number : Int64} (written : text = row ∧ number.toInt = absolute ∨
      text = '-' :: row ∧ number.toInt = -absolute) : number? text = some (.integer number) := by
  have parts := decimalParts?_of_isDigits digits.isDigits
  rcases written with ⟨rfl, same⟩ | ⟨rfl, same⟩
  · have read : Text.readInt64? text = some number :=
      Text.readInt64?_eq_some_iff.mpr (same ▸ .plain digits)
    unfold number?
    split
    rename_i sign
    split at sign
    · exact absurd digits (Text.not_digits_of_sign (.inr rfl))
    · obtain ⟨rfl, rfl⟩ := Prod.mk.inj sign
      simp only [parts, read, Option.bind_eq_bind, Option.bind_some, Option.map_some,
        Option.getD_some, Option.pure_def]
  · have read : Text.readInt64? ('-' :: row) = some number :=
      Text.readInt64?_eq_some_iff.mpr (same ▸ .minus digits)
    unfold number?
    split
    rename_i sign
    obtain ⟨rfl, rfl⟩ := Prod.mk.inj sign
    simp only [parts, read, Option.bind_eq_bind, Option.bind_some, Option.map_some,
      Option.getD_some, Option.pure_def]

theorem value_of_number? {first : Char} {rest : List Char} {number : Property}
    (numeric : first.isDigit = true ∨ first = '-') (read : number? (first :: rest) = some number) :
    value (first :: rest) = number := by
  have apart {c : Char} (other : c.isDigit = false ∧ c ≠ '-') : first ≠ c := by
    intro same
    subst same
    rcases numeric with digit | minus
    · exact Bool.false_ne_true (other.1.symm.trans digit)
    · exact other.2 minus
  have others : ∀ word ∈ words, word.1.toList.head?.all (fun c => !c.isDigit && c ≠ '-') := by
    decide
  have plain : String.ofList (first :: rest) ∉ words.map Prod.fst := by
    apply not_mem_words
    intro word known same
    have other := others word known
    rw [same, Option.all_some, Bool.and_eq_true, Bool.not_eq_true', decide_eq_true_eq] at other
    exact apart other rfl
  have noList : listItems? (first :: rest) = none := listItems?_of_ne (apart (by decide)) rest
  have noQuotes : quoted? (first :: rest) = none := by
    have double : first ≠ '"' := apart (by decide)
    have single : first ≠ '\'' := apart (by decide)
    simp [quoted?, double, single]
  rw [value_eq plain, noList, noQuotes, read]

theorem value_integer (number : Int64) :
    value (toString number.toInt).toList = .integer number := by
  obtain ⟨row, absolute, digits, written⟩ := Text.exists_digits_toString number.toInt
  have read := number?_of_digits digits written
  rcases written with ⟨unsigned, _⟩ | ⟨signed, _⟩
  · have decimal := digits.isDigits
    rw [unsigned] at read ⊢
    cases row with
    | nil => contradiction
    | cons first rest =>
        have digit := List.all_eq_true.mp (Bool.and_eq_true_iff.mp decimal).2 first
          List.mem_cons_self
        exact value_of_number? (.inl digit) read
  · rw [signed] at read ⊢
    exact value_of_number? (.inr rfl) read

/-- The written form of a value reads back. -/
theorem Spells.value_eq {spelled : Property} (spells : Spells text spelled) :
    value text = spelled := by
  cases spells with
  | word known =>
      simp only [words, List.mem_cons, List.not_mem_nil, or_false, Prod.mk.injEq] at known
      rcases known with ⟨rfl, rfl⟩ | ⟨rfl, rfl⟩ | ⟨rfl, rfl⟩ | ⟨rfl, rfl⟩ | ⟨rfl, rfl⟩ |
        ⟨rfl, rfl⟩ | ⟨rfl, rfl⟩ | ⟨rfl, rfl⟩ | ⟨rfl, rfl⟩ <;> rfl
  | integer number => exact value_integer number
  | string unbroken => exact value_quoted _
  | list unbroken undivided => exact value_list undivided

theorem not_isBlank_of_mem_words {word : String × Property} (known : word ∈ words) :
    ∀ c ∈ word.1.toList, Text.isBlank c = false := by
  have solid : ∀ word ∈ words, word.1.toList.all (!Text.isBlank ·) := by decide
  simpa using solid word known

theorem not_isBlank_of_mem_toString (number : Int) :
    ∀ c ∈ (toString number).toList, Text.isBlank c = false := by
  obtain ⟨row, _, digits, written⟩ := Text.exists_digits_toString number
  have decimal := List.all_eq_true.mp (Bool.and_eq_true_iff.mp digits.isDigits).2
  have solid : ∀ c ∈ '-' :: row, Text.isBlank c = false := by
    intro c member
    apply Text.not_isBlank_of_isAlphanum
    rcases List.mem_cons.mp member with minus | digit
    · exact .inr (.inr minus)
    · exact .inl (by simp [Char.isAlphanum, decimal c digit])
  rcases written with ⟨unsigned, _⟩ | ⟨signed, _⟩
  · rw [unsigned]
    exact fun c member => solid c (List.mem_cons_of_mem _ member)
  · rw [signed]
    exact solid

theorem Spells.tight {spelled : Property} (spells : Spells text spelled) : Text.Tight text := by
  cases spells with
  | word known => exact Text.tight_of_forall (not_isBlank_of_mem_words known)
  | integer number => exact Text.tight_of_forall (not_isBlank_of_mem_toString _)
  | string unbroken => exact tight_quoted _
  | list unbroken undivided => exact Text.Tight.of_ends (by decide) (by decide)

theorem not_mem_newline (solid : ∀ c ∈ text, Text.isBlank c = false) : '\n' ∉ text := by
  intro newline
  have blank := solid '\n' newline
  contradiction

theorem Spells.newline {spelled : Property} (spells : Spells text spelled) : '\n' ∉ text := by
  cases spells with
  | word known => exact not_mem_newline (not_isBlank_of_mem_words known)
  | integer number => exact not_mem_newline (not_isBlank_of_mem_toString _)
  | string unbroken => exact not_mem_quoted unbroken (by decide)
  | @list items unbroken undivided =>
      have between : '\n' ∉ [',', ' '].intercalate (items.map quoted) := by
        apply Text.not_mem_intercalate _ (by decide)
        intro piece member
        obtain ⟨item, known, rfl⟩ := List.mem_map.mp member
        exact not_mem_quoted (unbroken item known) (by decide)
      simp [bracketed, between]

variable {key : String} {line : List Char} {lines : List (List Char)} {pair : String × Property}
  {pairs : List (String × Property)}

theorem exists_letter_of_isKey {name : List Char} (valid : isKey name = true) :
    ∃ first rest, name = first :: rest ∧ (first.isAlpha = true ∨ first = '_') ∧
      ∀ c ∈ rest, c.isAlphanum = true ∨ c = '_' ∨ c = '-' := by
  cases name with
  | nil => contradiction
  | cons first rest =>
      simp only [isKey, Bool.and_eq_true, Bool.or_eq_true, decide_eq_true_eq, List.all_eq_true,
        or_assoc] at valid
      exact ⟨first, rest, rfl, valid⟩

theorem isAlphanum_of_isKey {name : List Char} (valid : isKey name = true) :
    ∀ c ∈ name, c.isAlphanum = true ∨ c = '_' ∨ c = '-' := by
  obtain ⟨first, rest, rfl, letter, others⟩ := exists_letter_of_isKey valid
  intro c member
  rcases List.mem_cons.mp member with rfl | later
  · exact letter.imp (fun alphabetic => by simp [Char.isAlphanum, alphabetic]) .inl
  · exact others c later

theorem not_isBlank_of_isKey {name : List Char} (valid : isKey name = true) :
    ∀ c ∈ name, Text.isBlank c = false :=
  fun c member => Text.not_isBlank_of_isAlphanum (isAlphanum_of_isKey valid c member)

/-- A key and a colon declare the value of what follows. -/
theorem property?_append (valid : isKey key.toList = true)
    (kept : key ∉ ["allowed-tools", "argument-hint"]) (behind : List Char) :
    property? (key.toList ++ ':' :: behind) = some (key, value (Text.trim behind)) := by
  have solid := not_isBlank_of_isKey valid
  obtain ⟨first, rest, spelled, letter, _⟩ := exists_letter_of_isKey valid
  have trimmed : Text.trim (key.toList ++ ':' :: behind) =
      key.toList ++ ':' :: Text.trimEnd behind := by
    have front : Text.isBlank first = false := solid first (by simp [spelled])
    rw [Text.trim, ← Text.trimEnd_append_cons (by decide), spelled, List.cons_append,
      List.dropWhile_cons_of_neg (by simp [front])]
  have noComment : (key.toList ++ ':' :: Text.trimEnd behind).head? ≠ some '#' := by
    rw [spelled, List.cons_append, List.head?_cons]
    intro same
    obtain rfl := Option.some.inj same
    revert letter
    decide
  have cut : Text.cutAt? [':'] (key.toList ++ ':' :: Text.trimEnd behind) =
      some (key.toList, Text.trimEnd behind) := by
    have absent : ¬ [':'] <:+: key.toList := by
      intro colon
      have plain := isAlphanum_of_isKey valid ':' (colon.subset List.mem_cons_self)
      revert plain
      decide
    have alone : ':' ∉ ([] : List Char) := List.not_mem_nil
    exact Text.cutAt?_append alone absent _
  have name : propertyName key = key := by
    unfold propertyName
    split
    · simp at kept
    · simp at kept
    · rfl
  have whole : Text.trimEnd key.toList = key.toList :=
    Text.trimEnd_eq_self (Text.tight_of_forall solid).back
  unfold property?
  simp only [trimmed, cut, whole, valid, Text.trim_trimEnd, name, noComment, guard, ne_eq,
    not_false_eq_true, if_true, Option.bind_eq_bind, Option.pure_def, Option.bind_some,
    String.ofList_toList]

theorem Declares.property?_eq (declares : Declares line pair) (ending : LineEnd) :
    property? (line ++ ending.lead) = some pair := by
  cases declares with
  | @intro key text value valid kept spells =>
      have ended : ∀ c ∈ ending.lead, Text.isBlank c = true :=
        fun c member => ending.mem_lead c member ▸ by decide
      have trimmed : Text.trim (' ' :: (text ++ ending.lead)) = text := by
        rw [Text.trim_cons (by decide), Text.trim_append_right ended, spells.tight.trim_eq]
      rw [declaration, List.append_assoc, List.cons_append, List.cons_append,
        property?_append valid kept, trimmed, spells.value_eq]

theorem Declares.unbroken (declares : Declares line pair) : Unbroken line := by
  cases declares with
  | @intro key text value valid kept spells =>
      have name : '\n' ∉ key.toList := not_mem_newline (not_isBlank_of_isKey valid)
      constructor
      · simp [declaration, name, spells.newline]
      · cases found : text.getLast? with
        | none =>
            obtain rfl := List.getLast?_eq_none_iff.mp found
            simp [declaration]
        | some c =>
            have solid := spells.tight.back c found
            have last : (declaration key text).getLast? = some c := by
              simp [declaration, List.getLast?_append, List.getLast?_cons, found]
            rw [last]
            intro same
            obtain rfl := Option.some.inj same
            contradiction

theorem Declares.not_fence (declares : Declares line pair) : ¬ fence <+: line := by
  cases declares with
  | @intro key text value valid kept spells =>
      obtain ⟨first, rest, spelled, letter, _⟩ := exists_letter_of_isKey valid
      rw [declaration, spelled, List.cons_append]
      intro begins
      obtain ⟨rfl, _⟩ := List.cons_prefix_cons.mp begins
      revert letter
      decide

/-- Lines that declare properties read as these. -/
theorem filterMap_property?_join (ending : LineEnd) (declared : List.Forall₂ Declares lines pairs)
    (nonempty : lines ≠ []) :
    (Text.splitOn '\n' (ending.join lines)).filterMap property? = pairs := by
  induction declared with
  | nil => contradiction
  | @cons line pair rest others declares later ih =>
      have newline := declares.unbroken.newline
      cases later with
      | nil =>
          have read := declares.property?_eq .lf
          rw [LineEnd.lead, List.append_nil] at read
          rw [LineEnd.join_singleton, Text.splitOn_of_not_mem newline,
            List.filterMap_cons_some read, List.filterMap_nil]
      | @cons next _ more _ declares' later =>
          have absent : '\n' ∉ line ++ ending.lead := by
            cases ending <;> simp [LineEnd.lead, newline]
          have cut : Text.splitOn '\n' (ending.join (line :: next :: more)) =
              (line ++ ending.lead) :: Text.splitOn '\n' (ending.join (next :: more)) := by
            rw [← Text.splitOn_append_cons absent, LineEnd.join_cons_cons, LineEnd.text]
            simp only [List.append_assoc, List.cons_append, List.nil_append]
          rw [cut, List.filterMap_cons_some (declares.property?_eq ending),
            ih (List.cons_ne_nil _ _)]

/-- Between two fences, lines that declare values under distinct keys are read as these pairs in
their order, and what follows is the body. -/
theorem properties_enclosed (declared : List.Forall₂ Declares lines pairs) (nonempty : pairs ≠ [])
    (distinct : (pairs.map Prod.fst).Nodup) (ending : LineEnd) (body : List Char) :
    properties (enclosed ending lines body) = pairs ∧
      (split (enclosed ending lines body)).body = body := by
  have plain : ∀ line ∈ lines, Unbroken line ∧ ¬ fence <+: line :=
    ((List.forall₂_and_left _ _).mp
      (declared.imp fun _ _ declares => ⟨⟨declares.unbroken, declares.not_fence⟩, declares⟩)).1
  have read := filterMap_property?_join ending declared
  cases declared with
  | nil => contradiction
  | @cons line pair rest others declares later =>
      have parts := split_enclosed_cons ending (fun line member => (plain line member).1)
        (fun line member => (plain line (List.mem_cons_of_mem _ member)).2) body
      constructor
      · rw [properties, parts]
        exact (congrArg Ordered.ofPairs (read (List.cons_ne_nil _ _))).trans
          (Ordered.ofPairs_eq_self distinct)
      · rw [parts]

/-- Texts that look like a comment, a list, a fence, a number or another key stay texts. -/
theorem properties_enclosed_lookalikes :
    properties "---\na: \"# [1]\"\nb: \"---\"\nc: [\"7\", \"d: \"e\"\"]\n_: -8\n---\n# e".toList =
      [("a", .string "# [1]"), ("b", .string "---"), ("c", .list ["7", "d: \"e\""]),
        ("_", .integer (-8))] := by
  have declared : List.Forall₂ Declares
      [declaration "a" (quoted "# [1]"), declaration "b" (quoted "---"),
        declaration "c" (bracketed ["7", "d: \"e\""]),
        declaration "_" (toString (-8 : Int64).toInt).toList]
      [("a", .string "# [1]"), ("b", .string "---"), ("c", .list ["7", "d: \"e\""]),
        ("_", .integer (-8))] :=
    .cons (.intro (by decide) (by decide) (.string (by decide)))
      (.cons (.intro (by decide) (by decide) (.string (by decide)))
        (.cons (.intro (by decide) (by decide) (.list (by decide) (by decide)))
          (.cons (.intro (by decide) (by decide) (.integer (-8))) .nil)))
  exact (properties_enclosed declared (by decide) (by decide) .lf "# e".toList).1

end DocumentGraph.Document.FrontMatter
