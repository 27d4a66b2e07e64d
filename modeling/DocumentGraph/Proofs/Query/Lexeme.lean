import DocumentGraph.Query.Scan
import DocumentGraph.Text.Numeral
import Mathlib.Data.List.DropRight
import Mathlib.Data.List.Induction

namespace DocumentGraph.Query

/-! Lexemes and trivia.

`Spelled` says which characters spell a token, `Suits` where the token may stand, and `Trivia`
which characters may stand between tokens.  What the scanner skips is trivia, and what it takes
for a lexeme spells the token that it makes of it and suits the context.
-/

/-- The place behind a text: its size in bytes, one more than its line breaks, and one more
than the characters of its last line. -/
def Position.behind (text : List Char) : Position where
  offset := (String.ofList text).utf8ByteSize
  line := text.count '\n' + 1
  column := (text.rtakeWhile (· ≠ '\n')).length + 1

theorem Position.behind_concat (text : List Char) (c : Char) :
    Position.behind (text ++ [c]) = (Position.behind text).advance c := by
  unfold Position.behind Position.advance
  by_cases broken : c = '\n'
  · subst broken
    simp
    rfl
  · simp [broken]

theorem Position.after_behind (before text : List Char) :
    (Position.behind before).after text = Position.behind (before ++ text) := by
  induction text using List.reverseRecOn with
  | nil => simp
  | append_singleton text c ih =>
      rw [Position.after_append, ih, ← List.append_assoc, Position.behind_concat]
      rfl

/-- A name begins with a letter or an underscore; digits and hyphens may follow. -/
def isName : List Char → Bool
  | [] => false
  | first :: rest => isNameStart first && rest.all isNamePart

/-- The contents of a string and how they are written between its quotes.  A backslash in front
of a quote or of a backslash is left out; before anything else it stands for itself. -/
inductive Quoted : List Char → List Char → Prop where
  | none : Quoted [] []
  | escaped {c : Char} {value written : List Char} (special : c = '"' ∨ c = '\\')
      (others : Quoted value written) : Quoted (c :: value) ('\\' :: c :: written)
  | backslash {c : Char} {value written : List Char} (ordinary : c ≠ '"' ∧ c ≠ '\\')
      (others : Quoted value (c :: written)) : Quoted ('\\' :: value) ('\\' :: c :: written)
  | plain {c : Char} {value written : List Char} (ordinary : c ≠ '"' ∧ c ≠ '\\')
      (others : Quoted value written) : Quoted (c :: value) (c :: written)

/-- The text of a token of some kind, and the characters that spell it.  A keyword may be
written in any case; a label is written behind a colon and a string between quotes. -/
inductive Spelled : Kind → List Char → List Char → Prop where
  | keyword {word : Keyword} {text : List Char} (reserved : Keyword.ofWord? text = some word) :
      Spelled (.keyword word) text text
  | identifier {text : List Char} (named : isName text = true) : Spelled .identifier text text
  | label {text : List Char} (named : isName text = true) : Spelled .label text (':' :: text)
  | string {text written : List Char} (quoted : Quoted text written) :
      Spelled .string text ('"' :: (written ++ ['"']))
  | integer {text : List Char} (decimal : Text.isDigits text = true) : Spelled .integer text text
  | symbol {mark : Symbol} : Spelled (.symbol mark) mark.spelling.toList mark.spelling.toList

/-- Where a token of some kind may stand.  Behind a dot every word is a name, elsewhere the
reserved words are none.  Labels stand inside nodes and relationships only, arrows behind them
only. -/
def Context.Suits (context : Context) (text : List Char) : Kind → Prop
  | .keyword _ => context.last ≠ some (.symbol .dot)
  | .identifier => context.last = some (.symbol .dot) ∨ Keyword.ofWord? text = none
  | .label => context.allowsLabel = true
  | .symbol .rightArrow | .symbol .leftArrow => context.afterPattern = true
  | _ => True

/-- Blanks and line comments in front of the rest of a text.  A comment ends with its line. -/
inductive Trivia (behind : List Char) : List Char → Prop where
  | none : Trivia behind []
  | blank {c : Char} {others : List Char} (space : isSpace c = true)
      (skipped : Trivia behind others) : Trivia behind (c :: others)
  | comment {line others : List Char} (single : '\n' ∉ line)
      (ended : ∀ c ∈ (others ++ behind).head?, c = '\n') (skipped : Trivia behind others) :
      Trivia behind ('-' :: '-' :: (line ++ others))

variable {context : Context} {input : List Char}

theorem trivia_skipped (context : Context) (inComment : Bool) (input : List Char) :
    let size := context.trivia inComment input
    if inComment then
      ∃ line others, input.take size = line ++ others ∧ '\n' ∉ line ∧
        (∀ c ∈ (others ++ input.drop size).head?, c = '\n') ∧ Trivia (input.drop size) others
    else Trivia (input.drop size) (input.take size) := by
  induction input generalizing inComment with
  | nil =>
      cases inComment with
      | true => exact ⟨[], [], rfl, by simp, by simp [Context.trivia], .none⟩
      | false => exact .none
  | cons c rest ih =>
      cases inComment with
      | true =>
          have size : context.trivia true (c :: rest) = context.trivia (c != '\n') rest + 1 := by
            simp [Context.trivia, Nat.add_comm]
          simp only [size, List.take_succ_cons, List.drop_succ_cons, if_true]
          by_cases broken : c = '\n'
          · subst broken
            exact ⟨[], _, rfl, by simp, by simp, .blank rfl (ih false)⟩
          · have inside : (c != '\n') = true := by simpa using broken
            rw [inside]
            obtain ⟨line, others, taken, single, ended, skipped⟩ := ih true
            refine ⟨c :: line, others, by rw [taken]; rfl, ?_, ended, skipped⟩
            simp [Ne.symm broken, single]
      | false =>
          by_cases space : isSpace c
          · have size : context.trivia false (c :: rest) = context.trivia false rest + 1 := by
              simp [Context.trivia, space, Nat.add_comm]
            simp only [size, List.take_succ_cons, List.drop_succ_cons]
            exact .blank space (ih false)
          · by_cases opens : c = '-' ∧ rest.head? = some '-' ∧ context.allowsComment = true
            · obtain ⟨rfl, second, allowed⟩ := opens
              obtain ⟨behind, rfl⟩ := List.head?_eq_some_iff.mp second
              have size : context.trivia false ('-' :: '-' :: behind) =
                  context.trivia true ('-' :: behind) + 1 := by
                rw [Context.trivia]
                simp [isSpace, allowed, Nat.add_comm]
              simp only [size, List.take_succ_cons, List.drop_succ_cons]
              obtain ⟨line, others, taken, single, ended, skipped⟩ := ih true
              have inside : context.trivia true ('-' :: behind) = context.trivia true behind + 1 := by
                simp [Context.trivia, Nat.add_comm]
              rw [taken]
              cases line with
              | nil =>
                  rw [inside, List.take_succ_cons, List.nil_append] at taken
                  have broken : '-' = '\n' := ended '-' (by rw [← taken]; rfl)
                  contradiction
              | cons first line =>
                  rw [inside, List.take_succ_cons, List.cons_append, List.cons.injEq] at taken
                  obtain ⟨rfl, _⟩ := taken
                  exact .comment (fun broken => single (List.mem_cons_of_mem _ broken)) ended skipped
            · have size : context.trivia false (c :: rest) = 0 := by
                rw [Context.trivia]
                rw [if_neg (by simp), if_neg space, if_neg]
                simpa [and_assoc] using opens
              simp only [size, List.take_zero]
              exact .none

theorem trivia_of_scan (context : Context) (input : List Char) :
    Trivia (input.drop (context.trivia false input)) (input.take (context.trivia false input)) :=
  trivia_skipped context false input

/-- A character that closes and protects nothing stands for itself. -/
theorem quotedContents_cons {c : Char} {rest : List Char} (noQuote : c ≠ '"')
    (protects : c = '\\' → ∀ second ∈ rest.head?, second ≠ '"' ∧ second ≠ '\\') :
    quotedContents (c :: rest) =
      (quotedContents rest).map fun (value, size) => (c :: value, size + 1) := by
  apply quotedContents.eq_5
  · exact noQuote
  · intro _ backslash behind
    exact (protects backslash '"' (by simp [behind])).1 rfl
  · intro _ backslash behind
    exact (protects backslash '\\' (by simp [behind])).2 rfl

/-- The contents end at the first quote that no backslash protects. -/
theorem quotedContents_eq_some_iff {value : List Char} {size : Nat} :
    quotedContents input = some (value, size) ↔
      ∃ written behind, input = written ++ '"' :: behind ∧ Quoted value written ∧
        size = written.length + 1 := by
  constructor
  · intro read
    fun_induction quotedContents input generalizing value size with
    | case1 => contradiction
    | case2 rest =>
        obtain ⟨rfl, rfl⟩ := Prod.mk.inj (Option.some.inj read)
        exact ⟨[], rest, rfl, .none, rfl⟩
    | case3 rest ih =>
        obtain ⟨⟨inner, _⟩, found, same⟩ := Option.map_eq_some_iff.mp read
        obtain ⟨rfl, rfl⟩ := Prod.mk.inj same
        obtain ⟨written, behind, rfl, quoted, rfl⟩ := ih found
        exact ⟨_, behind, rfl, .escaped (.inl rfl) quoted, rfl⟩
    | case4 rest ih =>
        obtain ⟨⟨inner, _⟩, found, same⟩ := Option.map_eq_some_iff.mp read
        obtain ⟨rfl, rfl⟩ := Prod.mk.inj same
        obtain ⟨written, behind, rfl, quoted, rfl⟩ := ih found
        exact ⟨_, behind, rfl, .escaped (.inr rfl) quoted, rfl⟩
    | case5 c rest noQuote noEscapedQuote noEscapedBackslash ih =>
        obtain ⟨⟨inner, _⟩, found, same⟩ := Option.map_eq_some_iff.mp read
        obtain ⟨rfl, rfl⟩ := Prod.mk.inj same
        obtain ⟨written, behind, rfl, quoted, rfl⟩ := ih found
        refine ⟨c :: written, behind, rfl, ?_, rfl⟩
        by_cases protects : c = '\\'
        · subst protects
          cases written with
          | nil => exact absurd rfl (noEscapedQuote behind rfl)
          | cons d written =>
              refine .backslash ⟨fun quote => ?_, fun backslash => ?_⟩ quoted
              · exact noEscapedQuote (written ++ '"' :: behind) rfl (by rw [quote]; rfl)
              · exact noEscapedBackslash (written ++ '"' :: behind) rfl (by rw [backslash]; rfl)
        · exact .plain ⟨noQuote, protects⟩ quoted
  · intro spelled
    obtain ⟨written, behind, rfl, quoted, rfl⟩ := spelled
    induction quoted with
    | none => rfl
    | escaped special others ih =>
        rcases special with rfl | rfl <;> simp [quotedContents, ih]
    | backslash ordinary others ih =>
        rw [List.cons_append, quotedContents_cons (by simp) (by simpa using ordinary), ih]
        rfl
    | plain ordinary others ih =>
        rw [List.cons_append,
          quotedContents_cons ordinary.1 (fun protects => absurd protects ordinary.2), ih]
        rfl

/-- A symbol is spelled by its first character alone or together with the next one; an arrow
stands behind a node or a relationship only. -/
theorem symbol?_cases {first : Char} {next : Option Char} {mark : Symbol}
    (found : context.symbol? first next = some mark) :
    (mark.spelling.toList = [first] ∨ ∃ second, next = some second ∧
      mark.spelling.toList = [first, second]) ∧
    (mark = .rightArrow ∨ mark = .leftArrow → context.afterPattern = true) := by
  unfold Context.symbol? at found
  split at found
  iterate 10
    · obtain rfl := Option.some.inj found
      exact ⟨.inl rfl, by simp⟩
  · split at found
    · rename_i second
      obtain rfl := Option.some.inj found
      exact ⟨.inr ⟨'.', second, rfl⟩, by simp⟩
    · obtain rfl := Option.some.inj found
      exact ⟨.inl rfl, by simp⟩
  · split at found
    · rename_i arrow
      obtain ⟨second, behind⟩ : next = some '>' ∧ context.afterPattern = true := by
        simpa using arrow
      obtain rfl := Option.some.inj found
      exact ⟨.inr ⟨'>', second, rfl⟩, fun _ => behind⟩
    · obtain rfl := Option.some.inj found
      exact ⟨.inl rfl, by simp⟩
  · split at found
    · rename_i arrow
      obtain ⟨second, behind⟩ : next = some '-' ∧ context.afterPattern = true := by
        simpa using arrow
      obtain rfl := Option.some.inj found
      exact ⟨.inr ⟨'-', second, rfl⟩, fun _ => behind⟩
    · split at found
      · rename_i second
        obtain rfl := Option.some.inj found
        exact ⟨.inr ⟨'=', second, rfl⟩, by simp⟩
      · split at found
        · rename_i second
          obtain rfl := Option.some.inj found
          exact ⟨.inr ⟨'>', second, rfl⟩, by simp⟩
        · obtain rfl := Option.some.inj found
          exact ⟨.inl rfl, by simp⟩
  · split at found
    · rename_i second
      obtain rfl := Option.some.inj found
      exact ⟨.inr ⟨'=', second, rfl⟩, by simp⟩
    · obtain rfl := Option.some.inj found
      exact ⟨.inl rfl, by simp⟩
  · contradiction

theorem symbol?_spelling {first : Char} {rest : List Char} {mark : Symbol}
    (found : context.symbol? first rest.head? = some mark) :
    first :: rest.take (mark.spelling.length - 1) = mark.spelling.toList := by
  have size : mark.spelling.length = mark.spelling.toList.length := by
    rw [String.length_toList]
  rcases (symbol?_cases found).1 with single | ⟨second, next, double⟩
  · rw [size, single]
    rfl
  · obtain ⟨behind, rfl⟩ := List.head?_eq_some_iff.mp next
    rw [size, double]
    rfl

theorem take_length_takeWhile (p : Char → Bool) (text : List Char) :
    text.take (text.takeWhile p).length = text.takeWhile p :=
  List.prefix_iff_eq_take.mp (List.takeWhile_prefix p) |>.symm

theorem isNamePart_of_isNameStart {c : Char} (starts : isNameStart c = true) :
    isNamePart c = true := by
  simp only [isNameStart, isNamePart, Char.isAlphanum, Bool.or_eq_true] at starts ⊢
  rcases starts with letter | underscore
  · exact .inl (.inl (.inl letter))
  · exact .inl (.inr underscore)

theorem isName_cons_takeWhile {first : Char} (starts : isNameStart first = true)
    (rest : List Char) : isName (first :: rest.takeWhile isNamePart) = true := by
  rw [isName, starts, Bool.true_and]
  exact List.all_takeWhile

theorem suits_of_symbol {mark : Symbol} {text : List Char}
    (arrow : mark = .rightArrow ∨ mark = .leftArrow → context.afterPattern = true) :
    context.Suits text (.symbol mark) := by
  cases mark with
  | rightArrow => exact arrow (.inl rfl)
  | leftArrow => exact arrow (.inr rfl)
  | _ => trivial

theorem spelled_of_lexeme {first : Char} {rest : List Char} {lexeme : Lexeme}
    (taken : context.lexeme first rest = .ok lexeme) :
    Spelled lexeme.kind lexeme.text (first :: rest.take lexeme.extra) ∧
      context.Suits lexeme.text lexeme.kind := by
  unfold Context.lexeme at taken
  split at taken
  · rename_i quote
    subst quote
    cases contents : quotedContents rest with
    | none => simp [contents] at taken
    | some found =>
        obtain ⟨value, size⟩ := found
        simp only [contents, Except.ok.injEq] at taken
        subst taken
        obtain ⟨written, behind, rfl, quoted, rfl⟩ := quotedContents_eq_some_iff.mp contents
        have slice : (written ++ '"' :: behind).take (written.length + 1) = written ++ ['"'] := by
          rw [List.take_length_add_append]
          rfl
        rw [slice]
        exact ⟨.string quoted, trivial⟩
  split at taken
  · rename_i decimal
    obtain rfl := Except.ok.inj taken
    rw [take_length_takeWhile]
    exact ⟨.integer (by simp [Text.isDigits, decimal]), trivial⟩
  split at taken
  · rename_i starts
    obtain rfl := Except.ok.inj taken
    rw [take_length_takeWhile]
    have named := isName_cons_takeWhile starts rest
    unfold Context.wordKind
    split
    · rename_i behindDot
      exact ⟨.identifier named, .inl behindDot⟩
    · rename_i elsewhere
      split
      · rename_i reserved
        exact ⟨.keyword reserved, elsewhere⟩
      · rename_i free
        exact ⟨.identifier named, .inr free⟩
  split at taken
  · rename_i labels
    obtain rfl := Except.ok.inj taken
    simp only [Bool.and_eq_true, decide_eq_true_eq] at labels
    obtain ⟨⟨rfl, allowed⟩, starts⟩ := labels
    obtain ⟨second, next, starts⟩ := (Option.any_eq_true _ _).mp starts
    obtain ⟨behind, rfl⟩ := List.head?_eq_some_iff.mp next
    rw [take_length_takeWhile, List.takeWhile_cons_of_pos (isNamePart_of_isNameStart starts)]
    exact ⟨.label (isName_cons_takeWhile starts behind), allowed⟩
  cases found : context.symbol? first rest.head? with
  | none => simp [found] at taken
  | some mark =>
      simp only [found, Except.ok.injEq] at taken
      subst taken
      rw [symbol?_spelling found]
      exact ⟨.symbol, suits_of_symbol (symbol?_cases found).2⟩

end DocumentGraph.Query
