import DocumentGraph.Proofs.Query.Lookahead

namespace DocumentGraph.Query

/-! What a text that cannot be scanned looks like.

Scanning stops at the first character that begins nothing, or at a quote without a partner.  The
text in front of that character can be scanned, and the error stands where it ends.
-/

/-- Every quote has an odd number of backslashes right in front of it. -/
def Unclosed (text : List Char) : Prop :=
  ∀ front behind, text = front ++ '"' :: behind →
    (front.rtakeWhile (· = '\\')).length % 2 = 1

/-- No token of any kind is spelled with this character at its beginning. -/
def BeginsNothing (c : Char) : Prop :=
  ∀ kind text slice, Spelled kind text slice → slice.head? ≠ some c

theorem rtakeWhile_append {p : Char → Bool} (front behind : List Char) :
    (front ++ behind).rtakeWhile p =
      if behind.all p then front.rtakeWhile p ++ behind else behind.rtakeWhile p := by
  induction behind using List.reverseRecOn with
  | nil => simp
  | append_singleton behind c ih =>
      rw [← List.append_assoc, List.rtakeWhile_concat, List.rtakeWhile_concat, ih]
      by_cases holds : p c = true
      · by_cases all : behind.all p = true <;> simp [holds, all]
      · simp [holds]

/-- Only what is behind another character counts. -/
theorem rtakeWhile_of_ne {c : Char} (other : c ≠ '\\') (front behind : List Char) :
    (front ++ c :: behind).rtakeWhile (· = '\\') = behind.rtakeWhile (· = '\\') := by
  rw [← List.singleton_append, ← List.append_assoc, rtakeWhile_append]
  split
  · rename_i all
    rw [List.rtakeWhile_concat_neg _ _ _ (by simpa using other), List.nil_append]
    exact (List.rtakeWhile_eq_self_iff.mpr (by simpa using all)).symm
  · rfl

/-- Backslashes protect each other in pairs. -/
theorem rtakeWhile_pair (front : List Char) :
    (('\\' :: '\\' :: front).rtakeWhile (· = '\\')).length % 2 =
      (front.rtakeWhile (· = '\\')).length % 2 := by
  have pair := rtakeWhile_append (p := (· = '\\')) ['\\', '\\'] front
  rw [List.cons_append, List.singleton_append] at pair
  rw [pair]
  split
  · rename_i all
    rw [List.all_eq_true] at all
    rw [List.rtakeWhile_eq_self_iff.mpr all, List.rtakeWhile_eq_self_iff.mpr (by simp),
      List.length_append]
    simp
  · rfl

theorem unclosed_of_quotedContents {text : List Char} (unread : quotedContents text = none) :
    Unclosed text := by
  fun_induction quotedContents text with
  | case1 =>
      intro front behind split
      simp at split
  | case2 rest => contradiction
  | case3 rest ih =>
      intro front behind split
      have inner := ih (Option.map_eq_none_iff.mp unread)
      rcases front with _ | ⟨first, _ | ⟨second, front⟩⟩
      · simp at split
      · obtain ⟨same, _⟩ := List.cons.inj split
        rw [← same]
        rfl
      · simp only [List.cons_append, List.cons.injEq] at split
        obtain ⟨_, rfl, split⟩ := split
        rw [← List.singleton_append, rtakeWhile_of_ne (by simp)]
        exact inner front behind split
  | case4 rest ih =>
      intro front behind split
      have inner := ih (Option.map_eq_none_iff.mp unread)
      rcases front with _ | ⟨first, _ | ⟨second, front⟩⟩
      · simp at split
      · simp at split
      · simp only [List.cons_append, List.cons.injEq] at split
        obtain ⟨rfl, rfl, split⟩ := split
        rw [rtakeWhile_pair]
        exact inner front behind split
  | case5 c rest noQuote noEscapedQuote noEscapedBackslash ih =>
      intro front behind split
      have inner := ih (Option.map_eq_none_iff.mp unread)
      cases front with
      | nil => exact absurd (List.cons.inj split).1 noQuote
      | cons first front =>
          simp only [List.cons_append, List.cons.injEq] at split
          obtain ⟨rfl, rfl⟩ := split
          have odd := inner front behind rfl
          by_cases backslash : c = '\\'
          · -- The backslash protects nothing, so it is followed by another character.
            cases front with
            | nil => exact absurd rfl (noEscapedQuote behind backslash)
            | cons second front =>
                have other : second ≠ '\\' := by
                  rintro rfl
                  exact noEscapedBackslash _ backslash rfl
                rw [← List.nil_append (second :: front), rtakeWhile_of_ne other] at odd
                rwa [← List.singleton_append, rtakeWhile_of_ne other]
          · rwa [← List.nil_append (c :: front), rtakeWhile_of_ne backslash]

theorem symbol?_isSome {context : Context} {c : Char} {mark : Symbol}
    (begins : mark.spelling.toList.head? = some c) (next : Option Char) :
    (context.symbol? c next).isSome := by
  cases mark with
  | leftParen | rightParen | leftBracket | rightBracket | leftBrace | rightBrace | colon | comma
  | asterisk | equals =>
      obtain rfl := Option.some.inj begins
      rfl
  | dot | dotDot | dash | rightArrow | leftArrow | notEquals | lessThan | lessEqual | greaterThan
  | greaterEqual =>
      simp only [Symbol.spelling, String.reduceToList, List.head?_cons, Option.some.injEq] at begins
      subst begins
      simp only [Context.symbol?, apply_ite Option.isSome, Option.isSome_some, ite_self]

theorem beginsNothing_of_symbol? {context : Context} {c : Char} {next : Option Char}
    (sign : c ≠ '"' ∧ c.isDigit = false ∧ isNameStart c = false)
    (unknown : context.symbol? c next = none) : BeginsNothing c := by
  obtain ⟨noQuote, noDigit, noName⟩ := sign
  have unnamed {text : List Char} (named : isName text = true) : text.head? ≠ some c := by
    rintro begins
    obtain ⟨rest, rfl⟩ := List.head?_eq_some_iff.mp begins
    rw [isName, noName] at named
    contradiction
  have spelledMark {mark : Symbol} : mark.spelling.toList.head? ≠ some c := by
    intro begins
    have found : (context.symbol? c next).isSome := symbol?_isSome begins next
    rw [unknown] at found
    contradiction
  intro kind text slice spelled
  cases spelled with
  | keyword reserved => exact unnamed (isName_of_reserved reserved)
  | identifier named => exact unnamed named
  | label named =>
      intro begins
      have colon : Symbol.colon.spelling.toList.head? = some c := begins
      exact spelledMark colon
  | string quoted =>
      intro begins
      exact noQuote (Option.some.inj begins).symm
  | integer decimal =>
      rintro begins
      obtain ⟨rest, rfl⟩ := List.head?_eq_some_iff.mp begins
      simp [Text.isDigits, noDigit] at decimal
  | symbol => exact spelledMark

/-- A lexeme is refused for its first character, or for a string that does not end. -/
theorem lexeme_error_cases {context : Context} {first : Char} {rest : List Char}
    {fault : LexicalFault} (refused : context.lexeme first rest = .error fault) :
    (fault = .noLexeme ∧ BeginsNothing first) ∨
    (fault = .unclosedString ∧ first = '"' ∧ Unclosed rest) := by
  unfold Context.lexeme at refused
  split at refused
  · rename_i quote
    cases contents : quotedContents rest with
    | none =>
        rw [contents] at refused
        exact .inr ⟨(Except.error.inj refused).symm, quote, unclosed_of_quotedContents contents⟩
    | some found =>
        rw [contents] at refused
        contradiction
  rename_i noQuote
  split at refused
  · contradiction
  rename_i noDigit
  split at refused
  · contradiction
  rename_i noName
  split at refused
  · contradiction
  cases found : context.symbol? first rest.head? with
  | none =>
      rw [found] at refused
      refine .inl ⟨(Except.error.inj refused).symm, beginsNothing_of_symbol? ?_ found⟩
      exact ⟨noQuote, Bool.eq_false_iff.mpr noDigit, Bool.eq_false_iff.mpr noName⟩
  | some mark =>
      rw [found] at refused
      contradiction

theorem EndsAlike.front (front behind : List Char) : EndsAlike (front ++ behind) front := by
  cases front with
  | nil => exact .inr (by simp)
  | cons c front => exact .inl rfl

/-- The text in front of a fault can be scanned, in the context in which the whole text is. -/
theorem tokensFrom_front {context : Context} {position : Position} {input : List Char}
    {error : QueryError} (failed : tokensFrom context position input = .error error) :
    ∃ front first rest fault, input = front ++ first :: rest ∧
      (∃ inside : Context, inside.lexeme first rest = .error fault) ∧
      error = fault.error first (position.after front) ∧
      ∃ tokens, tokensFrom context position front = .ok tokens := by
  induction context, input using scan_induction generalizing position with
  | ended context input skipped =>
      rw [tokensFrom_of_ended position skipped] at failed
      contradiction
  | fault context gap rest first fault skipped refused =>
      rw [tokensFrom_of_fault position skipped refused] at failed
      refine ⟨gap, first, rest, fault, rfl, ⟨context, refused⟩, (Except.error.inj failed).symm,
        _, tokensFrom_of_ended position ?_⟩
      have alone := (trivia_append (List.cons_ne_nil _ _) skipped).2 [] rfl
      rw [List.append_nil] at alone
      exact Nat.le_of_eq alone.symm
  | lexeme context gap slice tail first lexeme skipped taken size ih =>
      rw [tokensFrom_of_lexeme position skipped taken size] at failed
      cases further : tokensFrom (context.follow lexeme.kind)
          ((position.after gap).after (first :: slice)) tail with
      | ok later =>
          rw [further] at failed
          contradiction
      | error reason =>
          rw [further] at failed
          obtain rfl := Except.error.inj failed
          obtain ⟨front, stop, rest, fault, rfl, refused, rfl, tokens, scanned⟩ := ih further
          have ends := EndsAlike.front front (stop :: rest)
          have row := tokensFrom_of_lexeme position
            (trivia_of_endsAlike skipped ends) (lexeme_of_endsAlike taken size ends) size
          refine ⟨gap ++ first :: (slice ++ front), stop, rest, fault, by simp, refused, ?_,
            _, row.trans (congrArg _ scanned)⟩
          simp only [← Position.after_append, List.append_assoc, List.cons_append]

/-- A text that cannot be scanned can be scanned up to the place of the error.  There stands a
character that begins no token, or a quote that no later one closes. -/
theorem tokenize_fault {source : String} {error : QueryError}
    (failed : tokenize source = .error error) :
    ∃ front c rest, source.toList = front ++ c :: rest ∧
      (∃ tokens, tokenize (String.ofList front) = .ok tokens ∧
        tokens.getLast? = some (Token.endAt (Position.behind front))) ∧
      ((error = .unexpectedCharacter c (Position.behind front) ∧ BeginsNothing c) ∨
        (error = .unterminatedString (Position.behind front) ∧ c = '"' ∧ Unclosed rest)) := by
  obtain ⟨front, c, rest, fault, split, ⟨inside, refused⟩, same, tokens, scanned⟩ :=
    tokensFrom_front failed
  have place : Position.start.after front = Position.behind front := Position.after_behind [] front
  have layout : Layout [] front tokens := layout_of_tokensFrom scanned
  refine ⟨front, c, rest, split, ⟨tokens, ?_, layout.getLast?⟩, ?_⟩
  · rw [tokenize, String.toList_ofList, scanned]
  · rw [same, place]
    rcases lexeme_error_cases refused with ⟨rfl, nothing⟩ | ⟨rfl, quote, unclosed⟩
    · exact .inl ⟨rfl, nothing⟩
    · exact .inr ⟨rfl, quote, unclosed⟩

/-- A semicolon in a comment, and a string whose only further quote is protected. -/
def escapedQuote : String := "-- ;\n(n) \"a\\\" ;"

theorem tokenize_fault_escapedQuote :
    tokenize escapedQuote =
      .error (.unterminatedString { offset := 9, line := 2, column := 5 }) ∧
    ∃ front c rest, escapedQuote.toList = front ++ c :: rest ∧
      (∃ tokens, tokenize (String.ofList front) = .ok tokens ∧
        tokens.getLast? = some (Token.endAt (Position.behind front))) ∧
      Position.behind front = { offset := 9, line := 2, column := 5 } ∧ c = '"' ∧
      Unclosed rest := by
  have failed : tokenize escapedQuote =
      .error (.unterminatedString { offset := 9, line := 2, column := 5 }) := by
    with_unfolding_all rfl
  obtain ⟨front, c, rest, split, scanned, ⟨different, _⟩ | ⟨same, quote, unclosed⟩⟩ :=
    tokenize_fault failed
  · cases different
  · exact ⟨failed, front, c, rest, split, scanned,
      (QueryError.unterminatedString.inj same).symm, quote, unclosed⟩

end DocumentGraph.Query
