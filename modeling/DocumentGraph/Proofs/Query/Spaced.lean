import DocumentGraph.Proofs.Query.Layout

namespace DocumentGraph.Query

/-! Tokens with one space between any two.

A row of words is scanned as it is meant when every word suits the context that the words in
front of it leave behind.  This is so for the words of every text that can be scanned: its
blanks and comments can be replaced by single spaces.
-/

/-- A token without its place. -/
structure Word where
  kind : Kind
  text : String
deriving DecidableEq, Repr

def Token.word (token : Token) : Word where
  kind := token.kind
  text := token.text

/-- The contents of a string with a backslash in front of quotes and backslashes. -/
def escaped (text : List Char) : List Char :=
  text.flatMap fun c => if c = '"' ∨ c = '\\' then ['\\', c] else [c]

def Word.written (word : Word) : List Char :=
  match word.kind with
  | .string => '"' :: (escaped word.text.toList ++ ['"'])
  | .label => ':' :: word.text.toList
  | _ => word.text.toList

def spaced (words : List Word) : List Char :=
  List.intercalate [' '] (words.map Word.written)

namespace Context

/-- The context behind some words. -/
def after (context : Context) (words : List Word) : Context :=
  words.foldl (fun context word => context.follow word.kind) context

/-- Every word may be written as it is where it stands. -/
def Scans (context : Context) : List Word → Prop
  | [] => True
  | word :: words =>
      (Spelled word.kind word.text.toList word.written ∧
        context.Suits word.text.toList word.kind) ∧
      (context.follow word.kind).Scans words

theorem last_follow (context : Context) (kind : Kind) : (context.follow kind).last = some kind := by
  cases kind with
  | symbol mark => cases mark <;> rfl
  | _ => rfl

variable {context : Context}

theorem after_append (first second : List Word) :
    context.after (first ++ second) = (context.after first).after second :=
  List.foldl_append

theorem scans_append {first second : List Word} :
    context.Scans (first ++ second) ↔ context.Scans first ∧ (context.after first).Scans second := by
  induction first generalizing context with
  | nil => simp [Scans, after]
  | cons word words ih => simp only [List.cons_append, Scans, ih, and_assoc]; rfl

end Context

theorem quoted_escaped (text : List Char) : Quoted text (escaped text) := by
  induction text with
  | nil => exact .none
  | cons c text ih =>
      have front : escaped (c :: text) =
          (if c = '"' ∨ c = '\\' then ['\\', c] else [c]) ++ escaped text := List.flatMap_cons
      rw [front]
      split
      · rename_i special
        exact .escaped special ih
      · rename_i ordinary
        exact .plain (not_or.mp ordinary) ih

/-- Of all ways to write a word, one is canonical. -/
theorem Spelled.written {word : Word} {slice : List Char}
    (spelled : Spelled word.kind word.text.toList slice) :
    Spelled word.kind word.text.toList word.written := by
  obtain ⟨kind, text⟩ := word
  cases kind with
  | keyword reserved =>
      cases spelled with
      | keyword reserved => exact .keyword reserved
  | identifier =>
      cases spelled with
      | identifier named => exact .identifier named
  | label =>
      cases spelled with
      | label named => exact .label named
  | string => exact .string (quoted_escaped text.toList)
  | integer =>
      cases spelled with
      | integer decimal => exact .integer decimal
  | symbol mark =>
      have slice : Word.written { kind := .symbol mark, text } = text.toList := rfl
      rw [slice]
      generalize text.toList = characters at spelled ⊢
      cases spelled with
      | symbol => exact .symbol
  | endOfText => cases spelled

theorem isAlpha_of_isAlpha_toUpper {c : Char} (letter : c.toUpper.isAlpha = true) :
    c.isAlpha = true := by
  by_cases lower : c.isLower = true
  · exact Bool.or_eq_true_iff.mpr (.inr lower)
  · have unchanged : c.toUpper = c := by
      refine dif_neg fun small => lower ?_
      exact Bool.and_eq_true_iff.mpr ⟨decide_eq_true small.1, decide_eq_true small.2⟩
    rwa [unchanged] at letter

theorem isName_of_reserved {text : List Char} {word : Keyword}
    (reserved : Keyword.ofWord? text = some word) : isName text = true := by
  have same : word.spelling.toList = text.map Char.toUpper := by
    simpa using List.find?_some reserved
  have letters : word.spelling.toList ≠ [] ∧ word.spelling.toList.all Char.isAlpha = true := by
    cases word <;> decide
  rw [same, List.all_eq_true] at letters
  obtain ⟨nonempty, letters⟩ := letters
  have alphabetic : ∀ c ∈ text, c.isAlpha = true := fun c member =>
    isAlpha_of_isAlpha_toUpper (letters _ (List.mem_map_of_mem member))
  cases text with
  | nil => contradiction
  | cons first rest =>
      rw [isName, Bool.and_eq_true, List.all_eq_true]
      constructor
      · simp [isNameStart, alphabetic first]
      · intro c member
        simp [isNamePart, Char.isAlphanum, alphabetic c (List.mem_cons_of_mem _ member)]

section Lexeme

variable {context : Context} {kind : Kind} {text slice tail : List Char}

theorem takeWhile_append_apart {p : Char → Bool} {row : List Char} (all : row.all p = true)
    (stops : p ' ' = false) (apart : ∀ c ∈ tail.head?, c = ' ') :
    (row ++ tail).takeWhile p = row := by
  have ended : tail.takeWhile p = [] := by
    cases tail with
    | nil => rfl
    | cons c tail =>
        obtain rfl := apart c rfl
        exact List.takeWhile_cons_of_neg (by simp [stops])
  rw [List.takeWhile_append_of_pos (List.all_eq_true.mp all), ended, List.append_nil]

theorem not_isDigit_of_isNameStart {c : Char} (starts : isNameStart c = true) :
    ¬ c.isDigit = true := by
  rw [isNameStart, Bool.or_eq_true, decide_eq_true_eq] at starts
  rcases starts with letter | rfl
  · intro digit
    have high : c.val ≤ '9'.val := of_decide_eq_true (Bool.and_eq_true_iff.mp digit).2
    have low : 'A'.val ≤ c.val := by
      rcases Bool.or_eq_true_iff.mp letter with upper | lower
      · exact (of_decide_eq_true upper).1
      · have small : 'a'.val ≤ c.val := of_decide_eq_true (Bool.and_eq_true_iff.mp lower).1
        exact UInt32.le_trans (by decide) small
    exact absurd (UInt32.le_trans low high) (by decide)
  · decide

theorem all_isNamePart (named : isName text = true) : text.all isNamePart = true := by
  cases text with
  | nil => contradiction
  | cons first rest =>
      rw [isName, Bool.and_eq_true] at named
      rw [List.all_cons, isNamePart_of_isNameStart named.1, named.2]
      rfl

theorem head?_of_isName (named : isName text = true) :
    (text ++ tail).head?.any isNameStart = true := by
  cases text with
  | nil => contradiction
  | cons first rest =>
      rw [isName, Bool.and_eq_true] at named
      exact named.1

/-- A name is read to its end, as the kind of word that the context makes of it. -/
theorem lexeme_of_isName (named : isName text = true) (apart : ∀ c ∈ tail.head?, c = ' ') :
    ∃ first rest, text = first :: rest ∧ context.lexeme first (rest ++ tail) =
      .ok { kind := context.wordKind text, text, extra := rest.length } := by
  cases text with
  | nil => contradiction
  | cons first rest =>
      rw [isName, Bool.and_eq_true] at named
      obtain ⟨starts, parts⟩ := named
      have noQuote : first ≠ '"' := by
        rintro rfl
        contradiction
      have noDigit : ¬ first.isDigit = true := not_isDigit_of_isNameStart starts
      have name := takeWhile_append_apart parts rfl apart
      refine ⟨first, rest, rfl, ?_⟩
      simp only [Context.lexeme, if_neg noQuote, if_neg noDigit, if_pos starts, name]

/-- A character that begins no string, no number, no word and no label begins a symbol. -/
theorem lexeme_of_symbol? {first : Char} {rest : List Char} {mark : Symbol}
    (sign : first ≠ '"' ∧ first.isDigit = false ∧ isNameStart first = false)
    (noLabel : first = ':' → rest.head?.any isNameStart = false)
    (found : context.symbol? first rest.head? = some mark) :
    context.lexeme first rest = .ok { kind := .symbol mark, text := mark.spelling.toList
                                      extra := mark.spelling.length - 1 } := by
  obtain ⟨noQuote, noDigit, noName⟩ := sign
  have unlabelled : (first = ':' && context.allowsLabel && rest.head?.any isNameStart) = false := by
    by_cases colon : first = ':'
    · rw [noLabel colon, Bool.and_false]
    · rw [decide_eq_false colon, Bool.false_and, Bool.false_and]
  rw [Context.lexeme, if_neg noQuote, noDigit, noName, unlabelled, found]
  rfl

theorem lexeme_of_symbol {mark : Symbol} (suits : context.Suits text (.symbol mark))
    (apart : ∀ c ∈ tail.head?, c = ' ') :
    ∃ first rest, mark.spelling.toList = first :: rest ∧ context.lexeme first (rest ++ tail) =
      .ok { kind := .symbol mark, text := mark.spelling.toList, extra := rest.length } := by
  have ends : tail = [] ∨ ∃ behind, tail = ' ' :: behind := by
    cases tail with
    | nil => exact .inl rfl
    | cons c behind => exact .inr ⟨behind, by rw [apart c rfl]⟩
  cases mark with
  | leftParen => exact ⟨'(', [], rfl, rfl⟩
  | rightParen => exact ⟨')', [], rfl, rfl⟩
  | leftBracket => exact ⟨'[', [], rfl, rfl⟩
  | rightBracket => exact ⟨']', [], rfl, rfl⟩
  | leftBrace => exact ⟨'\x7b', [], rfl, rfl⟩
  | rightBrace => exact ⟨'\x7d', [], rfl, rfl⟩
  | comma => exact ⟨',', [], rfl, rfl⟩
  | asterisk => exact ⟨'*', [], rfl, rfl⟩
  | equals => exact ⟨'=', [], rfl, rfl⟩
  | dotDot => exact ⟨'.', ['.'], rfl, rfl⟩
  | greaterEqual => exact ⟨'>', ['='], rfl, rfl⟩
  | notEquals =>
      have found : context.symbol? '<' (['>'] ++ tail).head? = some .notEquals := by
        simp [Context.symbol?]
      exact ⟨'<', ['>'], rfl, lexeme_of_symbol? (by decide) (by simp) found⟩
  | lessEqual =>
      have found : context.symbol? '<' (['='] ++ tail).head? = some .lessEqual := by
        simp [Context.symbol?]
      exact ⟨'<', ['='], rfl, lexeme_of_symbol? (by decide) (by simp) found⟩
  | rightArrow =>
      have behind : context.afterPattern = true := suits
      have found : context.symbol? '-' (['>'] ++ tail).head? = some .rightArrow := by
        simp [Context.symbol?, behind]
      exact ⟨'-', ['>'], rfl, lexeme_of_symbol? (by decide) (by simp) found⟩
  | leftArrow =>
      have behind : context.afterPattern = true := suits
      have found : context.symbol? '<' (['-'] ++ tail).head? = some .leftArrow := by
        simp [Context.symbol?, behind]
      exact ⟨'<', ['-'], rfl, lexeme_of_symbol? (by decide) (by simp) found⟩
  | colon =>
      have noName : tail.head?.any isNameStart = false := by
        obtain rfl | ⟨behind, rfl⟩ := ends <;> rfl
      exact ⟨':', [], rfl, lexeme_of_symbol? (by decide) (fun _ => noName) rfl⟩
  -- The spelling of a longer symbol begins with each of these.
  | dot =>
      refine ⟨'.', [], rfl, ?_⟩
      obtain rfl | ⟨behind, rfl⟩ := ends <;> rfl
  | dash =>
      refine ⟨'-', [], rfl, ?_⟩
      obtain rfl | ⟨behind, rfl⟩ := ends <;> rfl
  | lessThan =>
      refine ⟨'<', [], rfl, ?_⟩
      obtain rfl | ⟨behind, rfl⟩ := ends <;> rfl
  | greaterThan =>
      refine ⟨'>', [], rfl, ?_⟩
      obtain rfl | ⟨behind, rfl⟩ := ends <;> rfl

theorem lexeme_of_spelled (spelled : Spelled kind text slice) (suits : context.Suits text kind)
    (apart : ∀ c ∈ tail.head?, c = ' ') :
    ∃ first rest, slice = first :: rest ∧
      context.lexeme first (rest ++ tail) = .ok { kind, text, extra := rest.length } := by
  cases spelled with
  | @keyword word _ reserved =>
      have sort : context.wordKind text = .keyword word := by
        rw [Context.wordKind, if_neg suits, reserved]
      rw [← sort]
      exact lexeme_of_isName (isName_of_reserved reserved) apart
  | identifier named =>
      have sort : context.wordKind text = .identifier := by
        rw [Context.wordKind]
        rcases suits with behindDot | free
        · rw [if_pos behindDot]
        · rw [free, ite_self]
      rw [← sort]
      exact lexeme_of_isName named apart
  | label named =>
      refine ⟨':', text, rfl, ?_⟩
      have allowed : context.allowsLabel = true := suits
      have starts : (text ++ tail).head?.any isNameStart = true := head?_of_isName named
      have name := takeWhile_append_apart (all_isNamePart named) rfl apart
      rw [Context.lexeme, if_neg (by decide), if_neg (by decide), if_neg (by decide),
        if_pos (by rw [allowed, starts]; rfl), name]
  | @string _ written quoted =>
      refine ⟨'"', written ++ ['"'], rfl, ?_⟩
      have contents : quotedContents ((written ++ ['"']) ++ tail) =
          some (text, written.length + 1) :=
        quotedContents_eq_some_iff.mpr ⟨written, tail, by simp, quoted, rfl⟩
      rw [Context.lexeme, if_pos rfl, contents, List.length_append, List.length_singleton]
  | integer decimal =>
      cases text with
      | nil => contradiction
      | cons first rest =>
          simp only [Text.isDigits, List.isEmpty_cons, Bool.not_false, Bool.true_and,
            List.all_cons, Bool.and_eq_true] at decimal
          obtain ⟨digit, digits⟩ := decimal
          have noQuote : first ≠ '"' := by
            rintro rfl
            contradiction
          have row := takeWhile_append_apart digits rfl apart
          refine ⟨first, rest, rfl, ?_⟩
          rw [Context.lexeme, if_neg noQuote, if_pos digit, row]
  | symbol => exact lexeme_of_symbol suits apart

theorem trivia_eq_zero {first : Char} {rest : List Char} (visible : isSpace first = false)
    (single : first = '-' → rest.head? ≠ some '-') :
    context.trivia false (first :: rest) = 0 := by
  have noComment : ¬ (first = '-' && rest.head? = some '-' && context.allowsComment) = true := by
    simp only [Bool.and_eq_true, decide_eq_true_eq]
    rintro ⟨⟨dash, next⟩, _⟩
    exact single dash next
  rw [Context.trivia, if_neg (by simp), if_neg (by simp [visible]), if_neg noComment]

/-- A word that begins with no blank and no dash is not skipped. -/
theorem trivia_of_shown {shown : Char → Bool} {first : Char} {rest : List Char}
    (visible : shown first = true)
    (hidden : [' ', '\t', '\r', '\n', '-'].any shown = false) :
    context.trivia false (first :: rest) = 0 := by
  rw [List.any_eq_false] at hidden
  have noSpace : isSpace first = false := by
    by_contra space
    simp only [isSpace, Bool.not_eq_false, Bool.or_eq_true, decide_eq_true_eq] at space
    exact hidden first (by simpa [or_assoc] using Or.inl space) visible
  refine trivia_eq_zero noSpace ?_
  rintro rfl
  exact absurd visible (hidden '-' (by simp))

theorem trivia_of_isName {rest : List Char} (named : isName text = true) :
    context.trivia false (text ++ rest) = 0 := by
  cases text with
  | nil => contradiction
  | cons first others =>
      rw [isName, Bool.and_eq_true] at named
      exact trivia_of_shown named.1 (by decide)

theorem trivia_of_symbol (mark : Symbol) (apart : ∀ c ∈ tail.head?, c = ' ') :
    context.trivia false (mark.spelling.toList ++ tail) = 0 := by
  have shape : ∃ first ∈ mark.spelling.toList.head?, isSpace first = false ∧
      (first = '-' → mark.spelling.toList.tail.head? ≠ some '-') := by
    cases mark <;> exact ⟨_, rfl, by decide, by decide⟩
  obtain ⟨first, begins, visible, second⟩ := shape
  obtain ⟨rest, written⟩ := List.head?_eq_some_iff.mp begins
  rw [written] at second ⊢
  refine trivia_eq_zero visible fun dash next => ?_
  cases rest with
  | nil =>
      have space := apart '-' next
      contradiction
  | cons c rest => exact second dash next

/-- Nothing in front of a word is skipped. -/
theorem trivia_of_spelled (spelled : Spelled kind text slice)
    (apart : ∀ c ∈ tail.head?, c = ' ') : context.trivia false (slice ++ tail) = 0 := by
  cases spelled with
  | keyword reserved => exact trivia_of_isName (isName_of_reserved reserved)
  | identifier named => exact trivia_of_isName named
  | label named => exact trivia_eq_zero rfl (by simp)
  | string quoted => exact trivia_eq_zero rfl (by simp)
  | integer decimal =>
      cases text with
      | nil => contradiction
      | cons first rest =>
          simp only [Text.isDigits, List.all_cons, Bool.and_eq_true] at decimal
          exact trivia_of_shown decimal.2.1 (by decide)
  | @symbol mark => exact trivia_of_symbol mark apart

end Lexeme

section Scan

variable {context : Context} {position : Position} {input : List Char} {tokens : List Token}

theorem tokensFrom_eq : tokensFrom context position input =
    let skipped := context.trivia false input
    let place := position.after (input.take skipped)
    match input.drop skipped with
    | [] => .ok [Token.endAt place]
    | first :: rest =>
        match context.lexeme first rest with
        | .error fault => .error (fault.error first place)
        | .ok lexeme =>
            match tokensFrom (context.follow lexeme.kind)
                (place.after (first :: rest.take lexeme.extra)) (rest.drop lexeme.extra) with
            | .error error => .error error
            | .ok tokens =>
                .ok ({ kind := lexeme.kind, text := String.ofList lexeme.text, position := place }
                  :: tokens) := by
  rw [tokensFrom]
  dsimp only
  generalize input.drop (context.trivia false input) = ahead
  cases ahead with
  | nil => rfl
  | cons first rest => rfl

theorem tokensFrom_of_ended (position : Position)
    (skipped : input.length ≤ context.trivia false input) :
    tokensFrom context position input = .ok [Token.endAt (position.after input)] := by
  rw [tokensFrom_eq]
  simp only [List.drop_of_length_le skipped, List.take_of_length_le skipped]

theorem tokensFrom_of_fault (position : Position) {gap rest : List Char} {first : Char}
    {fault : LexicalFault}
    (skipped : context.trivia false (gap ++ first :: rest) = gap.length)
    (refused : context.lexeme first rest = .error fault) :
    tokensFrom context position (gap ++ first :: rest) =
      .error (fault.error first (position.after gap)) := by
  rw [tokensFrom_eq, skipped]
  simp only [List.drop_left, List.take_left, refused]

/-- Behind a lexeme scanning goes on, with its token in front of what is found there. -/
theorem tokensFrom_of_lexeme (position : Position) {gap slice tail : List Char} {first : Char}
    {lexeme : Lexeme}
    (skipped : context.trivia false (gap ++ first :: (slice ++ tail)) = gap.length)
    (taken : context.lexeme first (slice ++ tail) = .ok lexeme)
    (size : lexeme.extra = slice.length) :
    tokensFrom context position (gap ++ first :: (slice ++ tail)) =
      (tokensFrom (context.follow lexeme.kind) ((position.after gap).after (first :: slice))
        tail).map
        ({ kind := lexeme.kind, text := String.ofList lexeme.text,
           position := position.after gap } :: ·) := by
  rw [tokensFrom_eq, skipped]
  simp only [taken, size, List.take_left, List.drop_left]
  generalize tokensFrom (context.follow lexeme.kind) _ tail = further
  cases further <;> rfl

/-- A space between words is skipped. -/
theorem tokensFrom_space : tokensFrom context position (' ' :: input) =
    tokensFrom context (position.advance ' ') input := by
  have size : context.trivia false (' ' :: input) = context.trivia false input + 1 := by
    rw [Context.trivia, if_neg (by simp), if_pos (by decide), Nat.add_comm]
  rw [tokensFrom_eq, size]
  exact tokensFrom_eq.symm

theorem tokensFrom_slice {kind : Kind} {text slice tail : List Char}
    (spelled : Spelled kind text slice) (suits : context.Suits text kind)
    (apart : ∀ c ∈ tail.head?, c = ' ') {others : List Token}
    (further : tokensFrom (context.follow kind) (position.after slice) tail = .ok others) :
    tokensFrom context position (slice ++ tail) =
      .ok ({ kind, text := String.ofList text, position } :: others) := by
  have shown : context.trivia false (slice ++ tail) = 0 := trivia_of_spelled spelled apart
  obtain ⟨first, rest, rfl, taken⟩ := lexeme_of_spelled spelled suits apart
  have skipped : context.trivia false ([] ++ first :: (rest ++ tail)) = ([] : List Char).length :=
    shown
  have found := tokensFrom_of_lexeme position skipped taken rfl
  rw [Position.after_nil, further] at found
  exact found

/-- Spaced words are scanned as they are. -/
theorem tokensFrom_spaced {words : List Word} (scans : context.Scans words) (position : Position) :
    ∃ tokens marker, tokensFrom context position (spaced words) = .ok (tokens ++ [marker]) ∧
      marker.kind = .endOfText ∧ tokens.map Token.word = words := by
  induction words generalizing context position with
  | nil => exact ⟨[], Token.endAt position, tokensFrom_eq, rfl, rfl⟩
  | cons word words ih =>
      obtain ⟨⟨spelled, suits⟩, others⟩ := scans
      let first : Token := { kind := word.kind, text := String.ofList word.text.toList, position }
      have same : first.word = word := by simp [first, Token.word]
      cases words with
      | nil =>
          obtain ⟨tokens, marker, scanned, ended, none⟩ := ih others (position.after word.written)
          have found := tokensFrom_slice spelled suits (by simp [spaced]) scanned
          have text : word.written ++ spaced [] = spaced [word] := by simp [spaced]
          rw [text] at found
          exact ⟨first :: tokens, marker, found, ended, by rw [List.map_cons, same, none]⟩
      | cons second words =>
          obtain ⟨tokens, marker, scanned, ended, later⟩ :=
            ih others ((position.after word.written).advance ' ')
          rw [← tokensFrom_space] at scanned
          have found := tokensFrom_slice spelled suits (by simp) scanned
          exact ⟨first :: tokens, marker, found, ended, by rw [List.map_cons, same, later]⟩

/-- The words of a text that can be scanned can be scanned. -/
theorem scans_of_tokensFrom {all : List Token}
    (scanned : tokensFrom context position input = .ok all) :
    ∃ tokens marker, all = tokens ++ [marker] ∧ marker.kind = .endOfText ∧
      context.Scans (tokens.map Token.word) := by
  induction all generalizing context position input with
  | nil =>
      obtain ⟨gap, behind, _, _, ⟨_, impossible⟩ | ⟨_, _, _, _, _, _, _, impossible⟩⟩ :=
        tokensFrom_cases scanned
      · contradiction
      · contradiction
  | cons token others ih =>
      obtain ⟨gap, behind, rfl, skipped, ended | ⟨first, rest, lexeme, later, rfl, taken, further,
        same⟩⟩ := tokensFrom_cases scanned
      · obtain ⟨rfl, same⟩ := ended
        exact ⟨[], _, same, rfl, trivial⟩
      · obtain ⟨rfl, rfl⟩ := List.cons.inj same
        obtain ⟨spelled, suits⟩ := spelled_of_lexeme taken
        obtain ⟨tokens, marker, rfl, ended, scans⟩ := ih further
        have text : (String.ofList lexeme.text).toList = lexeme.text := String.toList_ofList
        rw [← text] at spelled suits
        exact ⟨_ :: tokens, marker, rfl, ended, ⟨Spelled.written spelled, suits⟩, scans⟩

/-- No token that can be scanned marks an end. -/
theorem kind_of_scans (scans : context.Scans (tokens.map Token.word)) :
    ∀ token ∈ tokens, token.kind ≠ .endOfText := by
  induction tokens generalizing context with
  | nil => simp
  | cons token tokens ih =>
      obtain ⟨⟨spelled, _⟩, others⟩ := scans
      refine List.forall_mem_cons.mpr ⟨fun ended => ?_, ih others⟩
      have spelled : Spelled token.kind token.text.toList _ := spelled
      rw [ended] at spelled
      cases spelled

end Scan

end DocumentGraph.Query
