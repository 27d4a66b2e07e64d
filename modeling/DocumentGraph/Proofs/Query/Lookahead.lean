import DocumentGraph.Proofs.Query.Spaced

namespace DocumentGraph.Query

/-! How far the scanner looks.

Trivia and lexemes are recognised by their own characters and by the first one behind them.  What
is behind a lexeme may be taken away or be exchanged, as long as it begins with the same character
or with a blank.
-/

/-- The second text begins as the first one does, begins with a blank, or is empty. -/
def EndsAlike (tail other : List Char) : Prop :=
  other.head? = tail.head? ∨ ∀ c ∈ other.head?, isSpace c = true

variable {context : Context} {first : Char} {slice tail other : List Char}

theorem isSpace_iff {c : Char} : isSpace c = true ↔ c ∈ [' ', '\t', '\r', '\n'] := by
  simp [isSpace, or_assoc]

theorem EndsAlike.append (alike : EndsAlike tail other) (slice : List Char) :
    EndsAlike (slice ++ tail) (slice ++ other) := by
  cases slice with
  | nil => exact alike
  | cons c slice => exact .inl rfl

/-- Whatever the other text begins with, the text does too, unless it may be a blank. -/
theorem EndsAlike.any_head? (alike : EndsAlike tail other) {p : Char → Bool}
    (noBlank : [' ', '\t', '\r', '\n'].any p = false) (found : other.head?.any p = true) :
    tail.head?.any p = true := by
  rcases alike with same | blank
  · rwa [← same]
  · obtain ⟨c, begins, holds⟩ := (Option.any_eq_true _ _).mp found
    rw [List.any_eq_false] at noBlank
    exact absurd holds (noBlank c (isSpace_iff.mp (blank c begins)))

theorem EndsAlike.head?_eq (alike : EndsAlike tail other) {c : Char} (visible : isSpace c = false)
    (begins : other.head? = some c) : tail.head? = some c := by
  rcases alike with same | blank
  · rwa [← same]
  · rw [blank c begins] at visible
    contradiction

/-- Of what is behind the trivia nothing is skipped.  In front of any other such text the same
trivia is skipped. -/
theorem trivia_append {inComment : Bool} {gap row : List Char} (nonempty : row ≠ [])
    (skipped : context.trivia inComment (gap ++ row) = gap.length) :
    context.trivia false row = 0 ∧ ∀ other, context.trivia false other = 0 →
      context.trivia inComment (gap ++ other) = gap.length := by
  obtain ⟨next, behind, rfl⟩ := List.exists_cons_of_ne_nil nonempty
  induction gap generalizing inComment with
  | nil =>
      cases inComment with
      | false => exact ⟨skipped, fun _ shown => shown⟩
      | true => simp [Context.trivia] at skipped
  | cons c gap ih =>
      cases inComment with
      | true =>
          simp only [List.cons_append, Context.trivia, if_true, List.length_cons] at skipped ⊢
          have inner : context.trivia (c != '\n') (gap ++ next :: behind) = gap.length := by omega
          obtain ⟨shown, same⟩ := ih inner
          exact ⟨shown, fun other hidden => by rw [same other hidden, Nat.add_comm]⟩
      | false =>
          by_cases space : isSpace c = true
          · simp only [List.cons_append, Context.trivia, space, if_true, List.length_cons,
              Bool.false_eq_true, if_false] at skipped ⊢
            have inner : context.trivia false (gap ++ next :: behind) = gap.length := by omega
            obtain ⟨shown, same⟩ := ih inner
            exact ⟨shown, fun other hidden => by rw [same other hidden, Nat.add_comm]⟩
          · rw [List.cons_append, Context.trivia, if_neg (by simp), if_neg space] at skipped
            by_cases opens : (c = '-' && (gap ++ next :: behind).head? = some '-' &&
                context.allowsComment) = true
            · rw [if_pos opens, List.length_cons] at skipped
              -- The second dash is trivia too, for nothing else is inside a comment.
              cases gap with
              | nil => simp [Context.trivia] at skipped
              | cons d gap =>
                  have inner : context.trivia true (d :: gap ++ next :: behind) =
                      (d :: gap).length := by omega
                  obtain ⟨shown, same⟩ := ih inner
                  refine ⟨shown, fun other hidden => ?_⟩
                  rw [List.cons_append, List.head?_cons] at opens
                  rw [List.cons_append, Context.trivia, if_neg (by simp), if_neg space,
                    List.cons_append, List.head?_cons, if_pos opens, ← List.cons_append,
                    same other hidden, Nat.add_comm]
                  rfl
            · rw [if_neg opens] at skipped
              contradiction

theorem trivia_of_blank {gap : List Char} (blank : gap.all isSpace = true)
    (shown : context.trivia false other = 0) :
    context.trivia false (gap ++ other) = gap.length := by
  induction gap with
  | nil => exact shown
  | cons c gap ih =>
      rw [List.all_cons, Bool.and_eq_true] at blank
      rw [List.cons_append, Context.trivia, if_neg (by simp), if_pos blank.1, ih blank.2,
        List.length_cons, Nat.add_comm]

/-- Whether a comment begins depends on two characters. -/
theorem trivia_eq_zero_of_endsAlike
    (shown : context.trivia false (first :: (slice ++ tail)) = 0) (alike : EndsAlike tail other) :
    context.trivia false (first :: (slice ++ other)) = 0 := by
  rw [Context.trivia, if_neg (by simp)] at shown ⊢
  by_cases space : isSpace first = true
  · rw [if_pos space] at shown
    omega
  · rw [if_neg space] at shown ⊢
    rw [if_neg]
    simp only [Bool.and_eq_true, decide_eq_true_eq]
    rintro ⟨⟨dash, next⟩, allowed⟩
    have before := (alike.append slice).head?_eq rfl next
    rw [if_pos (by simp [dash, before, allowed])] at shown
    omega

/-- Trivia is skipped in front of a lexeme, whatever is behind the lexeme. -/
theorem trivia_of_endsAlike {gap : List Char}
    (skipped : context.trivia false (gap ++ first :: (slice ++ tail)) = gap.length)
    (alike : EndsAlike tail other) :
    context.trivia false (gap ++ first :: (slice ++ other)) = gap.length :=
  have shown := trivia_append (List.cons_ne_nil _ _) skipped
  shown.2 _ (trivia_eq_zero_of_endsAlike shown.1 alike)

theorem takeWhile_eq_nil_iff_any {p : Char → Bool} :
    tail.takeWhile p = [] ↔ tail.head?.any p = false := by
  cases tail with
  | nil => simp
  | cons c tail => cases found : p c <;> simp [found]

/-- A row of characters of one sort ends where it does, whatever is behind its end. -/
theorem takeWhile_of_endsAlike {p : Char → Bool} (alike : EndsAlike tail other)
    (noBlank : [' ', '\t', '\r', '\n'].any p = false)
    (size : ((slice ++ tail).takeWhile p).length = slice.length) :
    (slice ++ other).takeWhile p = (slice ++ tail).takeWhile p := by
  have row : (slice ++ tail).takeWhile p = slice :=
    (List.prefix_of_prefix_length_le (List.takeWhile_prefix p) (List.prefix_append slice tail)
      (Nat.le_of_eq size)).eq_of_length size
  have all : ∀ c ∈ slice, p c = true := by
    rw [← row]
    exact fun c member => List.mem_takeWhile_imp member
  rw [List.takeWhile_append_of_pos all, List.append_right_eq_self, takeWhile_eq_nil_iff_any] at row
  have stops : other.head?.any p = false :=
    Bool.eq_false_iff.mpr fun goesOn => absurd (alike.any_head? noBlank goesOn) (by simp [row])
  rw [List.takeWhile_append_of_pos all, List.takeWhile_append_of_pos all,
    takeWhile_eq_nil_iff_any.mpr stops, takeWhile_eq_nil_iff_any.mpr row]

/-- A symbol of one character is the same one in front of a blank. -/
theorem symbol?_of_single {next behind : Option Char} {mark : Symbol}
    (found : context.symbol? first next = some mark) (single : mark.spelling.length = 1)
    (blank : ∀ c ∈ behind, isSpace c = true) : context.symbol? first behind = some mark := by
  have longer : behind ≠ some '.' ∧ behind ≠ some '>' ∧ behind ≠ some '-' ∧ behind ≠ some '=' := by
    refine ⟨?_, ?_, ?_, ?_⟩ <;> exact fun begins => absurd (blank _ begins) (by decide)
  obtain ⟨noDot, noTip, noDash, noEqual⟩ := longer
  have double {long : Symbol} (same : some long = some mark) : long.spelling.length = 1 := by
    rwa [Option.some.inj same]
  unfold Context.symbol? at found ⊢
  split at found
  iterate 10
    · exact found
  · rw [if_neg noDot]
    split at found
    · exact absurd (double found) (by decide)
    · exact found
  · rw [if_neg (by simp [noTip])]
    split at found
    · exact absurd (double found) (by decide)
    · exact found
  · rw [if_neg (by simp [noDash]), if_neg noEqual, if_neg noTip]
    split at found
    · exact absurd (double found) (by decide)
    · split at found
      · exact absurd (double found) (by decide)
      · split at found
        · exact absurd (double found) (by decide)
        · exact found
  · rw [if_neg noEqual]
    split at found
    · exact absurd (double found) (by decide)
    · exact found
  · contradiction

theorem symbol?_of_endsAlike {mark : Symbol}
    (found : context.symbol? first (slice ++ tail).head? = some mark)
    (size : mark.spelling.length - 1 = slice.length) (alike : EndsAlike tail other) :
    context.symbol? first (slice ++ other).head? = some mark := by
  cases slice with
  | cons c slice => exact found
  | nil =>
      rcases alike with same | blank
      · rwa [List.nil_append, same]
      · have written : 0 < mark.spelling.length := by cases mark <;> decide
        rw [List.length_nil] at size
        exact symbol?_of_single found (by omega) blank

/-- The name of a label has a first character. -/
theorem labelled_of_endsAlike (starts : (slice ++ tail).head?.any isNameStart = true)
    (size : ((slice ++ tail).takeWhile isNamePart).length = slice.length) :
    (slice ++ other).head?.any isNameStart = true := by
  cases slice with
  | cons c slice => exact starts
  | nil =>
      obtain ⟨c, begins, letter⟩ := (Option.any_eq_true _ _).mp starts
      have nameless := takeWhile_eq_nil_iff_any.mp (List.eq_nil_of_length_eq_zero size)
      rw [begins, Option.any_some, isNamePart_of_isNameStart letter] at nameless
      contradiction

/-- A lexeme is the same one in front of another text. -/
theorem lexeme_of_endsAlike {lexeme : Lexeme}
    (taken : context.lexeme first (slice ++ tail) = .ok lexeme)
    (size : lexeme.extra = slice.length) (alike : EndsAlike tail other) :
    context.lexeme first (slice ++ other) = .ok lexeme := by
  unfold Context.lexeme at taken ⊢
  by_cases quote : first = '"'
  · rw [if_pos quote] at taken ⊢
    cases contents : quotedContents (slice ++ tail) with
    | none =>
        rw [contents] at taken
        contradiction
    | some found =>
        obtain ⟨value, length⟩ := found
        simp only [contents, Except.ok.injEq] at taken
        subst taken
        obtain ⟨written, behind, split, quoted, rfl⟩ := quotedContents_eq_some_iff.mp contents
        have halves : slice ++ tail = (written ++ ['"']) ++ behind := by
          rw [split, List.append_assoc, List.singleton_append]
        have closed : slice = written ++ ['"'] := (List.append_inj halves (by simp [← size])).1
        have same : quotedContents (slice ++ other) = some (value, written.length + 1) :=
          quotedContents_eq_some_iff.mpr ⟨written, other, by simp [closed], quoted, rfl⟩
        rw [same]
  rw [if_neg quote] at taken ⊢
  by_cases digit : first.isDigit = true
  · rw [if_pos digit] at taken ⊢
    obtain rfl := Except.ok.inj taken
    rw [takeWhile_of_endsAlike alike (by decide) size]
  rw [if_neg digit] at taken ⊢
  by_cases starts : isNameStart first = true
  · rw [if_pos starts] at taken ⊢
    obtain rfl := Except.ok.inj taken
    rw [takeWhile_of_endsAlike alike (by decide) size]
  rw [if_neg starts] at taken ⊢
  simp only [Bool.and_eq_true] at taken ⊢
  by_cases labels : (decide (first = ':') = true ∧ context.allowsLabel = true) ∧
      (slice ++ tail).head?.any isNameStart = true
  · rw [if_pos labels] at taken
    obtain rfl := Except.ok.inj taken
    rw [if_pos ⟨labels.1, labelled_of_endsAlike labels.2 size⟩,
      takeWhile_of_endsAlike alike (by decide) size]
  · rw [if_neg labels] at taken
    rw [if_neg fun label => labels ⟨label.1, (alike.append slice).any_head? (by decide) label.2⟩]
    cases found : context.symbol? first (slice ++ tail).head? with
    | none =>
        rw [found] at taken
        contradiction
    | some mark =>
        rw [found] at taken
        obtain rfl := Except.ok.inj taken
        rw [symbol?_of_endsAlike found size alike]

theorem extra_le_length {rest : List Char} {lexeme : Lexeme}
    (taken : context.lexeme first rest = .ok lexeme) : lexeme.extra ≤ rest.length := by
  unfold Context.lexeme at taken
  split at taken
  · cases contents : quotedContents rest with
    | none =>
        rw [contents] at taken
        contradiction
    | some found =>
        obtain ⟨value, size⟩ := found
        rw [contents] at taken
        obtain rfl := Except.ok.inj taken
        obtain ⟨written, behind, rfl, _, rfl⟩ := quotedContents_eq_some_iff.mp contents
        simp
  split at taken
  · obtain rfl := Except.ok.inj taken
    exact (List.takeWhile_prefix _).length_le
  split at taken
  · obtain rfl := Except.ok.inj taken
    exact (List.takeWhile_prefix _).length_le
  split at taken
  · obtain rfl := Except.ok.inj taken
    exact (List.takeWhile_prefix _).length_le
  cases found : context.symbol? first rest.head? with
  | none =>
      rw [found] at taken
      contradiction
  | some mark =>
      rw [found] at taken
      obtain rfl := Except.ok.inj taken
      rw [← String.length_toList]
      rcases (symbol?_cases found).1 with single | ⟨second, next, double⟩
      · simp [single]
      · obtain ⟨behind, rfl⟩ := List.head?_eq_some_iff.mp next
        simp [double]

/-- How a text goes on: with trivia to its end, or behind trivia with a fault or a lexeme. -/
inductive Ahead (context : Context) : List Char → Prop where
  | ended {input : List Char} (skipped : input.length ≤ context.trivia false input) :
      Ahead context input
  | fault {gap rest : List Char} {first : Char} {fault : LexicalFault}
      (skipped : context.trivia false (gap ++ first :: rest) = gap.length)
      (refused : context.lexeme first rest = .error fault) : Ahead context (gap ++ first :: rest)
  | lexeme {gap slice tail : List Char} {first : Char} {lexeme : Lexeme}
      (skipped : context.trivia false (gap ++ first :: (slice ++ tail)) = gap.length)
      (taken : context.lexeme first (slice ++ tail) = .ok lexeme)
      (size : lexeme.extra = slice.length) : Ahead context (gap ++ first :: (slice ++ tail))

theorem exists_append_of_le {size : Nat} {text : List Char} (enough : size ≤ text.length) :
    ∃ front behind, text = front ++ behind ∧ size = front.length := by
  refine ⟨_, _, (List.take_append_drop size text).symm, ?_⟩
  rw [List.length_take, Nat.min_eq_left enough]

theorem ahead (context : Context) (input : List Char) : Ahead context input := by
  by_cases inside : context.trivia false input < input.length
  · obtain ⟨gap, behind, rfl, skipped⟩ := exists_append_of_le (Nat.le_of_lt inside)
    cases behind with
    | nil =>
        rw [skipped, List.append_nil] at inside
        exact absurd inside (Nat.lt_irrefl _)
    | cons first rest =>
        cases taken : context.lexeme first rest with
        | error fault => exact .fault skipped taken
        | ok lexeme =>
            obtain ⟨slice, tail, rfl, size⟩ := exists_append_of_le (extra_le_length taken)
            exact .lexeme skipped taken size
  · exact .ended (Nat.le_of_not_lt inside)

/-- Induction over a text as it is scanned. -/
theorem scan_induction {motive : Context → List Char → Prop}
    (ended : ∀ context input, input.length ≤ context.trivia false input → motive context input)
    (fault : ∀ (context : Context) (gap rest : List Char) (first : Char) (fault : LexicalFault),
      context.trivia false (gap ++ first :: rest) = gap.length →
      context.lexeme first rest = .error fault → motive context (gap ++ first :: rest))
    (lexeme : ∀ (context : Context) (gap slice tail : List Char) (first : Char) (lexeme : Lexeme),
      context.trivia false (gap ++ first :: (slice ++ tail)) = gap.length →
      context.lexeme first (slice ++ tail) = .ok lexeme → lexeme.extra = slice.length →
      motive (context.follow lexeme.kind) tail → motive context (gap ++ first :: (slice ++ tail)))
    (context : Context) (input : List Char) : motive context input := by
  induction size : input.length using Nat.strong_induction_on generalizing context input with
  | _ bound ih =>
      cases ahead context input with
      | ended skipped => exact ended context input skipped
      | fault skipped refused => exact fault _ _ _ _ _ skipped refused
      | lexeme skipped taken extra =>
          refine lexeme _ _ _ _ _ _ skipped taken extra (ih _ ?_ _ _ rfl)
          simp only [← size, List.length_append, List.length_cons]
          omega

end DocumentGraph.Query
