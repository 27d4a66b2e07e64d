import DocumentGraph.Proofs.Json.Phrase

namespace DocumentGraph.Json.Reader

/-! Words, strings, members and integers read back. -/

variable {text input rest behind : List Char} {c : Char}

theorem reads_word {α : Type} (word : String) (begins : Begins word.toList) (value : α) :
    Reads (do Reader.word word; return value) word.toList value where
  begins
  read blank _ := by
    rw [word_bind (begins.dropWhile blank _)]
    rfl

theorem unit?_hexDigit : ∀ code < 32,
    unit? '0' '0' (hexDigit (code / 16)) (hexDigit (code % 16)) = some code := by
  decide

theorem stringBody?_plain (quote : c ≠ '"') (slash : c ≠ '\\') (visible : ¬ c.toNat < 32)
    (body : stringBody? rest = some (text, behind)) :
    stringBody? (c :: rest) = some (c :: text, behind) := by
  rw [stringBody?, if_neg visible, body]
  · rfl
  all_goals intros; contradiction

theorem stringBody?_control (control : c.toNat < 32)
    (body : stringBody? rest = some (text, behind)) :
    stringBody? ('\\' :: 'u' :: '0' :: '0' :: hexDigit (c.toNat / 16) ::
      hexDigit (c.toNat % 16) :: rest) = some (c :: text, behind) := by
  have low : ¬ 0xd800 ≤ c.toNat := by omega
  have high : ¬ 0xdc00 ≤ c.toNat := by omega
  rw [stringBody?, unit?_hexDigit c.toNat control]
  simp only [Option.bind_eq_bind, Option.bind_some, low, high, decide_false, Bool.false_and,
    Bool.false_eq_true, if_false, body]
  rw [Char.ofNat_toNat]
  rfl

/-- What is written for a character is read as that character. -/
theorem stringBody?_escapeChar (c : Char) (body : stringBody? rest = some (text, behind)) :
    stringBody? (escapeChar c ++ rest) = some (c :: text, behind) := by
  unfold escapeChar
  split
  case h_8 quote slash _ _ _ _ _ =>
    split
    · rename_i control
      exact stringBody?_control control body
    · rename_i visible
      exact stringBody?_plain quote slash visible body
  all_goals simp [stringBody?, body, simpleEscape?]

theorem stringBody?_flatMap (text behind : List Char) :
    stringBody? (text.flatMap escapeChar ++ '"' :: behind) = some (text, behind) := by
  induction text with
  | nil => rfl
  | cons c text ih =>
      rw [List.flatMap_cons, List.append_assoc]
      exact stringBody?_escapeChar c ih

theorem reads_string (text : String) : Reads string (quote text) text where
  begins := ⟨_, _, rfl, by decide, by decide⟩
  read := by
    intro gap behind blank _
    have split : quote text ++ behind =
        '"' :: (text.toList.flatMap escapeChar ++ '"' :: behind) := by
      simp [quote]
    rw [split, string, token_bind (dropWhile_blank blank (by decide) _), get_bind,
      stringBody?_flatMap]
    change some (String.ofList text.toList, behind) = _
    rw [String.ofList_toList]

/-- The text of a member, with blanks behind its colon. -/
def keyed (space : List Char) (key : String) (text : List Char) : List Char :=
  quote key ++ ':' :: (space ++ text)

theorem length_le_keyed (space : List Char) (key : String) (text : List Char) :
    text.length ≤ (keyed space key text).length :=
  (((List.sublist_append_right space text).cons ':').trans
    (List.sublist_append_right _ _)).length_le

section Member

variable {α : Type} {value : α} {key : String} {space : List Char}

/-- How a value is read may depend on its key. -/
theorem reads_keyed {next : String → Reader α} (blank : Blank space)
    (reads : Reads (next key) text value) :
    Reads (do let key ← string; token ':'; next key) (keyed space key text) value where
  begins := (reads_string key).begins.append _
  read := by
    intro gap behind skipped ends
    have colon (rest : List Char) : (':' :: rest).dropWhile isBlank = ':' :: rest :=
      dropWhile_visible (by decide) rest
    rw [keyed, List.append_assoc, List.cons_append,
      (reads_string key).bind_of skipped (ends_cons (by decide) (by decide) _),
      token_bind (colon _), List.append_assoc]
    exact reads.read blank ends

theorem reads_member {reader : Reader α} (blank : Blank space) (reads : Reads reader text value) :
    Reads (member reader) (keyed space key text) (key, value) :=
  reads_keyed blank (reads.map fun value => (key, value))

end Member

section Numeral

variable {row : List Char}

theorem digits_of_row (decimal : ∀ digit ∈ row, digit.isDigit = true) (ends : Ends behind) :
    digits (row ++ behind) = some (row, behind) := by
  have stop : behind.takeWhile Char.isDigit = [] ∧ behind.dropWhile Char.isDigit = behind := by
    cases behind with
    | nil => exact ⟨rfl, rfl⟩
    | cons c behind =>
        have other := (ends c rfl).1
        exact ⟨List.takeWhile_cons_of_neg (by simp [other]),
          List.dropWhile_cons_of_neg (by simp [other])⟩
  change some ((row ++ behind).takeWhile Char.isDigit, (row ++ behind).dropWhile Char.isDigit) = _
  rw [List.takeWhile_append_of_pos decimal, List.dropWhile_append_of_pos decimal, stop.1, stop.2,
    List.append_nil]

theorem someDigits_of_row (decimal : Text.isDigits row = true) (ends : Ends behind) :
    someDigits (row ++ behind) = some (row, behind) := by
  simp only [Text.isDigits, Bool.and_eq_true, List.all_eq_true] at decimal
  obtain ⟨some, all⟩ := decimal
  unfold someDigits
  rw [bind_of_some (digits_of_row all ends), some]
  rfl

theorem oneOf?_cons {choices : List Char} :
    oneOf? choices (c :: rest) =
      some (if c ∈ choices then (some c, rest) else (none, c :: rest)) := by
  unfold oneOf?
  rw [get_bind]
  by_cases member : c ∈ choices
  · simp only [member, if_true]
    rfl
  · simp only [member, if_false]
    rfl

theorem oneOf?_of_head {choices : List Char} (apart : ∀ c ∈ input.head?, c ∉ choices) :
    oneOf? choices input = some (none, input) := by
  cases input with
  | nil => rfl
  | cons c rest => rw [oneOf?_cons, if_neg (apart c rfl)]

theorem oneOf?_of_mem {choices : List Char} (member : c ∈ choices) :
    oneOf? choices (c :: rest) = some (some c, rest) := by
  rw [oneOf?_cons, if_pos member]

theorem exists_of_isDigits (decimal : Text.isDigits row = true) :
    ∃ digit more, row = digit :: more ∧ digit.isDigit = true := by
  cases row with
  | nil => contradiction
  | cons digit more =>
      simp only [Text.isDigits, List.all_cons, Bool.and_eq_true] at decimal
      exact ⟨digit, more, rfl, decimal.2.1⟩

theorem ne_of_isDigit {digit : Char} (decimal : digit.isDigit = true) (other : c.isDigit = false) :
    digit ≠ c := by
  rintro rfl
  rw [decimal] at other
  contradiction

theorem begins_numeral {sign : List Char} {negative : Bool}
    (signed : sign = [] ∧ negative = false ∨ sign = ['-'] ∧ negative = true)
    (decimal : Text.isDigits row = true) : Begins (sign ++ row) := by
  obtain ⟨digit, more, rfl, isDigit⟩ := exists_of_isDigits decimal
  have other (c : Char) := ne_of_isDigit (c := c) isDigit
  rcases signed with ⟨rfl, _⟩ | ⟨rfl, _⟩
  · refine ⟨digit, more, rfl, ?_, ?_⟩
    · simp [isBlank, other]
    · simp [other]
  · exact ⟨'-', digit :: more, rfl, by decide, by decide⟩

/-- A row of digits with or without a minus sign, and without zeros in front. -/
theorem reads_numeral {sign : List Char} {negative : Bool}
    (signed : sign = [] ∧ negative = false ∨ sign = ['-'] ∧ negative = true)
    (decimal : Text.isDigits row = true) (proper : row.head? ≠ some '0' ∨ row.length = 1) :
    Reads numeral (sign ++ row) { negative, whole := row, fraction := none, exponent := none } where
  begins := begins_numeral signed decimal
  read := by
    intro gap behind blank ends
    have start : (gap ++ (sign ++ row ++ behind)).dropWhile isBlank = sign ++ (row ++ behind) := by
      rw [begins_numeral signed decimal |>.dropWhile blank, List.append_assoc]
    have signRead : oneOf? ['-'] (sign ++ (row ++ behind)) =
        some (if negative then some '-' else none, row ++ behind) := by
      rcases signed with ⟨rfl, rfl⟩ | ⟨rfl, rfl⟩
      · refine oneOf?_of_head fun c member => ?_
        obtain ⟨digit, more, rfl, isDigit⟩ := exists_of_isDigits decimal
        obtain rfl := Option.some.inj member
        simpa using ne_of_isDigit isDigit (by decide)
      · exact oneOf?_of_mem (by decide)
    have noFraction : oneOf? ['.'] behind = some (none, behind) :=
      oneOf?_of_head fun c member found =>
        (ends c member).2 (List.mem_singleton.mp found ▸ List.mem_cons_self)
    have noExponent : oneOf? ['e', 'E'] behind = some (none, behind) :=
      oneOf?_of_head fun c member found => (ends c member).2 (List.mem_cons_of_mem _ found)
    rw [numeral, blanks_bind, start, bind_of_some signRead,
      bind_of_some (someDigits_of_row decimal ends), guard_bind (by simpa using proper),
      bind_of_some noFraction]
    simp only [Option.isSome_none, Bool.false_eq_true, if_false, pure_bind]
    rw [bind_of_some noExponent]
    cases negative <;> rfl

/-- The numeral that an integer is written as. -/
def Numeral.ofInt (value : Int) : Numeral where
  negative := value < 0
  whole := (toString value.natAbs).toList
  fraction := none
  exponent := none

theorem reads_toString (value : Int) :
    Reads numeral (toString value).toList (Numeral.ofInt value) := by
  have proper (number : Nat) : (toString number).toList.head? ≠ some '0' ∨
      (toString number).toList.length = 1 := by
    by_cases leading : (toString number).toList.head? = some '0'
    · rw [Text.eq_zero_of_head?_toString leading]
      exact .inr rfl
    · exact .inl leading
  cases value with
  | ofNat number =>
      exact reads_numeral (.inl ⟨rfl, rfl⟩) (Text.digits_toString number).isDigits (proper number)
  | negSucc number =>
      rw [Text.toString_negSucc]
      exact reads_numeral (.inr ⟨rfl, decide_eq_true (Int.negSucc_lt_zero number)⟩)
        (Text.digits_toString (number + 1)).isDigits (proper (number + 1))

theorem exists_of_toString (value : Int) :
    ∃ c rest, (toString value).toList = c :: rest ∧ (c = '-' ∨ c.isDigit = true) := by
  obtain ⟨row, number, digits, ⟨written, _⟩ | ⟨written, _⟩⟩ := Text.exists_digits_toString value
  · obtain ⟨digit, more, rfl, decimal⟩ := exists_of_isDigits digits.isDigits
    exact ⟨digit, more, written, .inr decimal⟩
  · exact ⟨'-', row, written, .inl rfl⟩

/-- An integer that 64 bits hold, with or without a sign, is written as a numeral of an integer. -/
theorem Numeral.toJson?_ofInt {value : Int} (low : -Nat.pow 2 63 ≤ value)
    (high : value < Nat.pow 2 64) :
    (Numeral.ofInt value).toJson? = some (.integer value) := by
  have denoted : Text.digitsValue (toString value.natAbs).toList = value.natAbs :=
    (Text.digits_toString value.natAbs).digitsValue_eq
  suffices read : (Numeral.ofInt value).integer? = some value by rw [Numeral.toJson?, read]
  unfold Numeral.integer?
  rw [Nat.pow_eq] at low high
  simp only [Numeral.ofInt, Option.isSome_none, Bool.or_false, Bool.false_eq_true, if_false,
    decide_eq_true_eq, denoted, Bool.and_eq_true, Nat.pow_eq]
  by_cases negative : value < 0
  · rw [if_pos negative, if_pos (by omega), Option.some.injEq]
    omega
  · rw [if_neg negative, if_pos (by omega), Option.some.injEq]
    omega

end Numeral

end DocumentGraph.Json.Reader
