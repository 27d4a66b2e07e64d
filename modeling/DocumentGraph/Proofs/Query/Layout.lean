import DocumentGraph.Proofs.Query.Lexeme

namespace DocumentGraph.Query

/-! Tokens and the text that they come from.

Scanning takes a text apart into the characters that spell its tokens and trivia between them,
without leaving out or counting twice a character.  So every token stands where the characters
in front of it end.
-/

variable {context : Context} {position : Position} {input : List Char} {tokens : List Token}

/-- Scanning ends where trivia ends the text; else it takes a lexeme and goes on behind it. -/
theorem tokensFrom_cases (scanned : tokensFrom context position input = .ok tokens) :
    ∃ gap behind, input = gap ++ behind ∧ Trivia behind gap ∧
      ((behind = [] ∧ tokens = [Token.endAt (position.after gap)]) ∨
      ∃ first rest lexeme others, behind = first :: rest ∧
        context.lexeme first rest = .ok lexeme ∧
        tokensFrom (context.follow lexeme.kind)
          ((position.after gap).after (first :: rest.take lexeme.extra))
          (rest.drop lexeme.extra) = .ok others ∧
        tokens = { kind := lexeme.kind, text := String.ofList lexeme.text,
                   position := position.after gap } :: others) := by
  rw [tokensFrom] at scanned
  refine ⟨_, _, (List.take_append_drop (context.trivia false input) input).symm,
    trivia_of_scan context input, ?_⟩
  split at scanned
  · rename_i finished
    exact .inl ⟨finished, (Except.ok.inj scanned).symm⟩
  · rename_i first rest ahead
    cases taken : context.lexeme first rest with
    | error fault => simp [taken] at scanned
    | ok lexeme =>
        simp only [taken] at scanned
        split at scanned
        · contradiction
        · rename_i others further
          exact .inr ⟨first, rest, lexeme, others, ahead, taken, further,
            (Except.ok.inj scanned).symm⟩

/-- A text that begins behind another one, taken apart into trivia and what spells its tokens.
Every token stands where its first character does, and the last one marks the end. -/
inductive Layout : List Char → List Char → List Token → Prop where
  | ended {before gap : List Char} (skipped : Trivia [] gap) :
      Layout before gap [Token.endAt (Position.behind (before ++ gap))]
  | token {before gap slice rest : List Char} {token : Token} {tokens : List Token}
      (skipped : Trivia (slice ++ rest) gap)
      (placed : token.position = Position.behind (before ++ gap))
      (spelled : Spelled token.kind token.text.toList slice)
      (others : Layout (before ++ gap ++ slice) rest tokens) :
      Layout before (gap ++ (slice ++ rest)) (token :: tokens)

theorem layout_of_tokensFrom {before : List Char}
    (scanned : tokensFrom context (Position.behind before) input = .ok tokens) :
    Layout before input tokens := by
  induction tokens generalizing context before input with
  | nil =>
      obtain ⟨gap, behind, _, _, ⟨_, impossible⟩ | ⟨_, _, _, _, _, _, _, impossible⟩⟩ :=
        tokensFrom_cases scanned
      · contradiction
      · contradiction
  | cons token tokens ih =>
      obtain ⟨gap, behind, rfl, skipped, ended | ⟨first, rest, lexeme, others, rfl, taken, further,
        same⟩⟩ := tokensFrom_cases scanned
      · obtain ⟨rfl, same⟩ := ended
        rw [same, Position.after_behind, List.append_nil]
        exact .ended skipped
      · obtain ⟨rfl, rfl⟩ := List.cons.inj same
        rw [Position.after_behind, Position.after_behind] at further
        have slice : first :: rest =
            (first :: rest.take lexeme.extra) ++ rest.drop lexeme.extra := by
          rw [List.cons_append, List.take_append_drop]
        rw [slice] at skipped ⊢
        refine .token skipped (Position.after_behind before gap) ?_ (ih further)
        rw [String.toList_ofList]
        exact (spelled_of_lexeme taken).1

theorem Spelled.ne_nil {kind : Kind} {text slice : List Char} (spelled : Spelled kind text slice) :
    slice ≠ [] := by
  cases spelled with
  | keyword reserved =>
      rintro rfl
      contradiction
  | identifier named =>
      rintro rfl
      contradiction
  | integer decimal =>
      rintro rfl
      contradiction
  | label named => exact List.cons_ne_nil _ _
  | string quoted => exact List.cons_ne_nil _ _
  | symbol => rename_i mark; cases mark <;> decide

theorem offset_behind_append (front back : List Char) :
    (Position.behind (front ++ back)).offset =
      (Position.behind front).offset + (Position.behind back).offset := by
  simp [Position.behind, String.ofList_append]

theorem offset_behind_pos {text : List Char} (nonempty : text ≠ []) :
    0 < (Position.behind text).offset := by
  obtain ⟨first, rest, rfl⟩ := List.exists_cons_of_ne_nil nonempty
  have size : 0 < first.utf8Size := first.utf8Size_pos
  rw [← List.singleton_append, offset_behind_append]
  simp [Position.behind]
  omega

/-- Every token of a layout stands behind some front part of the text. -/
theorem Layout.placed {before text : List Char} (layout : Layout before text tokens) :
    ∀ token ∈ tokens, ∃ front back, text = front ++ back ∧
      token.position = Position.behind (before ++ front) := by
  induction layout with
  | @ended before gap skipped =>
      intro token member
      obtain rfl := List.mem_singleton.mp member
      exact ⟨gap, [], by simp, rfl⟩
  | @token before gap slice rest first tokens skipped placed spelled others ih =>
      intro token member
      rcases List.mem_cons.mp member with rfl | later
      · exact ⟨gap, slice ++ rest, rfl, placed⟩
      · obtain ⟨front, back, rfl, there⟩ := ih token later
        exact ⟨gap ++ slice ++ front, back, by simp, by simpa using there⟩

theorem Layout.increasing {before text : List Char} (layout : Layout before text tokens) :
    tokens.Pairwise fun left right => left.position.offset < right.position.offset := by
  induction layout with
  | ended skipped => exact List.pairwise_singleton _ _
  | @token before gap slice rest first tokens skipped placed spelled others ih =>
      refine List.pairwise_cons.mpr ⟨?_, ih⟩
      intro token later
      obtain ⟨front, _, _, there⟩ := others.placed token later
      have longer : 0 < (Position.behind slice).offset := offset_behind_pos spelled.ne_nil
      rw [placed, there, offset_behind_append (before ++ gap ++ slice), offset_behind_append _ slice]
      omega

theorem Layout.getLast? {before text : List Char} (layout : Layout before text tokens) :
    tokens.getLast? = some (Token.endAt (Position.behind (before ++ text))) := by
  induction layout with
  | ended skipped => rfl
  | token skipped placed spelled others ih =>
      rw [List.getLast?_cons, ih, Option.getD_some]
      simp

/-- The tokens of a text and trivia between them make up the text.  Their offsets increase up to
that of the end, which is the size of the text, and lie between its characters. -/
theorem tokenize_layout {source : String} (scanned : tokenize source = .ok tokens) :
    Layout [] source.toList tokens ∧
    (tokens.Pairwise fun left right => left.position.offset < right.position.offset) ∧
    (∀ token ∈ tokens, (String.Pos.Raw.mk token.position.offset).IsValid source) ∧
    ∃ marker, tokens.getLast? = some marker ∧ marker.kind = .endOfText ∧
      marker.position.offset = source.utf8ByteSize := by
  have layout : Layout [] source.toList tokens := layout_of_tokensFrom scanned
  refine ⟨layout, layout.increasing, ?_, _, layout.getLast?, rfl, ?_⟩
  · intro token member
    obtain ⟨front, back, split, there⟩ := layout.placed token member
    rw [String.Pos.Raw.isValid_iff_exists_append]
    refine ⟨String.ofList front, String.ofList back, ?_, ?_⟩
    · rw [← String.ofList_append, ← split, String.ofList_toList]
    · rw [there]
      rfl
  · simp [Position.behind, Token.endAt]

/-- A comment with a character of two bytes, a label, and a string over two lines. -/
def labelAndLines : String := "-- né\n(:Node\"x\\\"\ny\")"

def labelAndLinesTokens : List Token :=
  [{ kind := .symbol .leftParen, text := "(", position := { offset := 7, line := 2, column := 1 } },
    { kind := .label, text := "Node", position := { offset := 8, line := 2, column := 2 } },
    { kind := .string, text := "x\"\ny", position := { offset := 13, line := 2, column := 7 } },
    { kind := .symbol .rightParen, text := ")",
      position := { offset := 20, line := 3, column := 3 } },
    Token.endAt { offset := 21, line := 3, column := 4 }]

theorem tokenize_layout_labelAndLines : tokenize labelAndLines = .ok labelAndLinesTokens ∧
    Layout [] labelAndLines.toList labelAndLinesTokens ∧
    (labelAndLinesTokens.Pairwise fun left right =>
      left.position.offset < right.position.offset) ∧
    (∀ token ∈ labelAndLinesTokens,
      (String.Pos.Raw.mk token.position.offset).IsValid labelAndLines) ∧
    ∃ marker, labelAndLinesTokens.getLast? = some marker ∧ marker.kind = .endOfText ∧
      marker.position.offset = labelAndLines.utf8ByteSize := by
  have scanned : tokenize labelAndLines = .ok labelAndLinesTokens := by
    with_unfolding_all rfl
  exact ⟨scanned, tokenize_layout scanned⟩

end DocumentGraph.Query
