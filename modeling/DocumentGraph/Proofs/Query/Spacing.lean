import DocumentGraph.Proofs.Query.Lookahead

namespace DocumentGraph.Query

/-! Blanks and comments mean nothing.

A text that can be scanned is a row of lexemes with trivia in front of them.  It can be scanned
with other blanks in place of the trivia, as long as lexemes that stand apart still do, and its
tokens can be written with one space between any two; neither changes a token.
-/

/-- A lexeme and what is in front of it. -/
structure Piece where
  gap : List Char
  lexeme : List Char

/-- The text of some pieces, with a gap behind them. -/
def woven (pieces : List Piece) (gap : List Char) : List Char :=
  pieces.foldr (fun piece behind => piece.gap ++ (piece.lexeme ++ behind)) gap

/-- Pieces that spell the words, and trivia in front of every lexeme and behind the last one. -/
inductive Divided : List Word → List Piece → List Char → Prop where
  | ended {gap : List Char} (skipped : Trivia [] gap) : Divided [] [] gap
  | word {word : Word} {words : List Word} {piece : Piece} {pieces : List Piece}
      {gap : List Char} (skipped : Trivia (piece.lexeme ++ woven pieces gap) piece.gap)
      (spelled : Spelled word.kind word.text.toList piece.lexeme)
      (others : Divided words pieces gap) : Divided (word :: words) (piece :: pieces) gap

/-- The same lexeme behind blanks.  Where something was in front of it, a blank still is. -/
structure Piece.Respaced (piece other : Piece) : Prop where
  lexeme : other.lexeme = piece.lexeme
  blank : other.gap.all isSpace = true
  apart : piece.gap ≠ [] → other.gap ≠ []

/-- The text is scanned with tokens of the same kinds and texts. -/
def ScansAs (text : List Char) (tokens : List Token) : Prop :=
  ∃ again, tokenize (String.ofList text) = .ok again ∧
    again.map Token.word = tokens.map Token.word

theorem all_isSpace_head? {gap behind : List Char} (blank : gap.all isSpace = true)
    (nonempty : gap ≠ []) : ∀ c ∈ (gap ++ behind).head?, isSpace c = true := by
  obtain ⟨first, rest, rfl⟩ := List.exists_cons_of_ne_nil nonempty
  simp only [List.all_cons, Bool.and_eq_true] at blank
  intro c begins
  obtain rfl := Option.some.inj begins
  exact blank.1

theorem endsAlike_woven {words : List Word} {pieces others : List Piece} {gap rest : List Char}
    (divided : Divided words pieces gap) (respaced : List.Forall₂ Piece.Respaced pieces others)
    (blank : rest.all isSpace = true) : EndsAlike (woven pieces gap) (woven others rest) := by
  cases respaced with
  | nil =>
      refine .inr fun c begins => ?_
      rw [List.all_eq_true] at blank
      exact blank c (List.mem_of_mem_head? begins)
  | @cons piece other pieces others same further =>
      by_cases tight : other.gap = []
      · have before : piece.gap = [] := by
          by_contra apart
          exact same.apart apart tight
        cases divided with
        | word _ spelled _ =>
            obtain ⟨first, behind, written⟩ := List.exists_cons_of_ne_nil spelled.ne_nil
            left
            simp [woven, tight, before, same.lexeme, written]
      · exact .inr (all_isSpace_head? same.blank tight)

section Scan

variable {context : Context} {position : Position}

theorem ended_of_trivia {input : List Char}
    (skipped : input.length ≤ context.trivia false input) : Trivia [] input := by
  have trivia := trivia_of_scan context input
  rwa [List.drop_of_length_le skipped, List.take_of_length_le skipped] at trivia

theorem trivia_of_skipped {gap row : List Char}
    (skipped : context.trivia false (gap ++ row) = gap.length) : Trivia row gap := by
  have trivia := trivia_of_scan context (gap ++ row)
  rwa [skipped, List.drop_left, List.take_left] at trivia

theorem tokensFrom_blank {gap : List Char} (blank : gap.all isSpace = true) :
    tokensFrom context position gap = .ok [Token.endAt (position.after gap)] := by
  refine tokensFrom_of_ended position (Nat.le_of_eq ?_)
  have skipped : context.trivia false (gap ++ []) = gap.length := trivia_of_blank blank rfl
  rw [List.append_nil] at skipped
  exact skipped.symm

/-- A text is scanned alike with its trivia and with blanks in place of it. -/
theorem divided_of_tokensFrom {input : List Char} {tokens : List Token}
    (scanned : tokensFrom context position input = .ok tokens) :
    ∃ words pieces gap, tokens.map Token.word = words ++ [(Token.endAt {}).word] ∧
      Divided words pieces gap ∧ woven pieces gap = input ∧
      ∀ place others rest, List.Forall₂ Piece.Respaced pieces others → rest.all isSpace = true →
        ∃ again, tokensFrom context place (woven others rest) = .ok again ∧
          again.map Token.word = tokens.map Token.word := by
  induction context, input using scan_induction generalizing position tokens with
  | ended context input skipped =>
      rw [tokensFrom_of_ended position skipped] at scanned
      obtain rfl := Except.ok.inj scanned
      refine ⟨[], [], input, rfl, .ended (ended_of_trivia skipped), rfl, ?_⟩
      intro place others rest respaced blank
      cases respaced
      exact ⟨_, tokensFrom_blank blank, rfl⟩
  | fault context gap rest first fault skipped refused =>
      rw [tokensFrom_of_fault position skipped refused] at scanned
      contradiction
  | lexeme context gap slice tail first lexeme skipped taken size ih =>
      rw [tokensFrom_of_lexeme position skipped taken size] at scanned
      cases further : tokensFrom (context.follow lexeme.kind)
          ((position.after gap).after (first :: slice)) tail with
      | error error =>
          rw [further] at scanned
          contradiction
      | ok later =>
          rw [further] at scanned
          obtain rfl := Except.ok.inj scanned
          obtain ⟨words, pieces, last, alike, divided, rfl, respaced⟩ := ih further
          have spelled := (spelled_of_lexeme taken).1
          rw [size, List.take_left, ← String.toList_ofList (l := lexeme.text)] at spelled
          refine ⟨{ kind := lexeme.kind, text := String.ofList lexeme.text } :: words,
            { gap, lexeme := first :: slice } :: pieces, last, ?_,
            .word (trivia_of_skipped skipped) spelled divided, rfl, ?_⟩
          · simp [alike, Token.word]
          · intro place others rest same blank
            cases same with
            | @cons _ other _ others here behind =>
                obtain ⟨blanks, lexeme⟩ := other
                obtain rfl : lexeme = first :: slice := here.lexeme
                have ends : EndsAlike (woven pieces last) (woven others rest) :=
                  endsAlike_woven divided behind blank
                have shown := trivia_eq_zero_of_endsAlike
                  (trivia_append (List.cons_ne_nil _ _) skipped).1 ends
                have row := tokensFrom_of_lexeme place
                  (trivia_of_blank here.blank shown) (lexeme_of_endsAlike taken size ends) size
                obtain ⟨again, scanned, words⟩ := respaced _ others rest behind blank
                refine ⟨_, row.trans (congrArg _ scanned), ?_⟩
                simp [words, Token.word]

end Scan

theorem word_of_last {source : String} {row : List Token} {marker : Token}
    (scanned : tokenize source = .ok (row ++ [marker])) : marker.word = (Token.endAt {}).word := by
  have layout : Layout [] source.toList (row ++ [marker]) := layout_of_tokensFrom scanned
  have last := layout.getLast?
  rw [List.getLast?_concat, Option.some.injEq] at last
  rw [last]
  rfl

theorem scansAs_spaced {source : String} {row : List Token} {marker : Token}
    (scanned : tokenize source = .ok (row ++ [marker]))
    (scans : Context.Scans {} (row.map Token.word)) :
    ScansAs (spaced (row.map Token.word)) (row ++ [marker]) := by
  obtain ⟨again, last, read, _, same⟩ := tokensFrom_spaced scans Position.start
  have rescanned :
      tokenize (String.ofList (spaced (row.map Token.word))) = .ok (again ++ [last]) := by
    rw [tokenize, String.toList_ofList, read]
  refine ⟨again ++ [last], rescanned, ?_⟩
  rw [List.map_append, List.map_append, same, List.map_singleton, List.map_singleton,
    word_of_last rescanned, word_of_last scanned]

/-- The tokens of a text, written with one space between any two, are scanned as what they are.
So are the lexemes of the text with blanks in place of its blanks and comments, and with further
blanks wherever two lexemes meet. -/
theorem tokenize_respaced {source : String} {tokens : List Token}
    (scanned : tokenize source = .ok tokens) :
    let words := (tokens.filter (·.kind ≠ .endOfText)).map Token.word
    ScansAs (spaced words) tokens ∧
    ∃ pieces gap, woven pieces gap = source.toList ∧ Divided words pieces gap ∧
      ∀ others rest, List.Forall₂ Piece.Respaced pieces others → rest.all isSpace = true →
        ScansAs (woven others rest) tokens := by
  obtain ⟨row, marker, rfl, ended, scans⟩ := scans_of_tokensFrom scanned
  have inText : (row ++ [marker]).filter (·.kind ≠ .endOfText) = row := by
    have kept := List.filter_eq_self.mpr fun token member =>
      decide_eq_true (kind_of_scans scans token member)
    rw [List.filter_append, kept]
    simp [ended]
  obtain ⟨words, pieces, gap, same, divided, whole, respaced⟩ := divided_of_tokensFrom scanned
  rw [List.map_append, List.map_singleton, word_of_last scanned] at same
  obtain rfl := List.append_cancel_right same
  simp only [inText]
  refine ⟨scansAs_spaced scanned scans, pieces, gap, whole, divided, ?_⟩
  intro others rest alike blank
  obtain ⟨again, read, words⟩ := respaced Position.start others rest alike blank
  refine ⟨again, ?_, words⟩
  rw [tokenize, String.toList_ofList, read]

/-- Dashes that are no comment, a comment, a reserved word behind a dot, and a protected quote. -/
def dashesAndComment : String := "(a)--n.count -- c\n<>\"\\\"\""

def dashesAndCommentTokens : List Token :=
  [{ kind := .symbol .leftParen, text := "(", position := { offset := 0, line := 1, column := 1 } },
    { kind := .identifier, text := "a", position := { offset := 1, line := 1, column := 2 } },
    { kind := .symbol .rightParen, text := ")",
      position := { offset := 2, line := 1, column := 3 } },
    { kind := .symbol .dash, text := "-", position := { offset := 3, line := 1, column := 4 } },
    { kind := .symbol .dash, text := "-", position := { offset := 4, line := 1, column := 5 } },
    { kind := .identifier, text := "n", position := { offset := 5, line := 1, column := 6 } },
    { kind := .symbol .dot, text := ".", position := { offset := 6, line := 1, column := 7 } },
    { kind := .identifier, text := "count", position := { offset := 7, line := 1, column := 8 } },
    { kind := .symbol .notEquals, text := "<>",
      position := { offset := 18, line := 2, column := 1 } },
    { kind := .string, text := "\"", position := { offset := 20, line := 2, column := 3 } },
    Token.endAt { offset := 24, line := 2, column := 7 }]

theorem tokenize_respaced_dashesAndComment :
    tokenize dashesAndComment = .ok dashesAndCommentTokens ∧
    (let words := (dashesAndCommentTokens.filter (·.kind ≠ .endOfText)).map Token.word
    spaced words = "( a ) - - n . count <> \"\\\"\"".toList ∧
    ScansAs (spaced words) dashesAndCommentTokens ∧
    ∃ pieces gap, woven pieces gap = dashesAndComment.toList ∧ Divided words pieces gap ∧
      ∀ others rest, List.Forall₂ Piece.Respaced pieces others → rest.all isSpace = true →
        ScansAs (woven others rest) dashesAndCommentTokens) := by
  have scanned : tokenize dashesAndComment = .ok dashesAndCommentTokens := by
    with_unfolding_all rfl
  exact ⟨scanned, by decide +kernel, tokenize_respaced scanned⟩

end DocumentGraph.Query
