import DocumentGraph.Json.Print
import DocumentGraph.Json.Read
import DocumentGraph.Proofs.Text.Numeral
import Mathlib.Data.List.Forall2

namespace DocumentGraph.Json.Reader

/-! Phrases of a JSON text.

`Reads` says that a reader takes a text from the front of whatever begins with it and stops
behind it.  Blanks may stand in front of the text; what stands behind must not be the rest of a
number, since nothing else marks where one ends.  What a reader is about to take is the text ahead
without its blanks.
-/

variable {α β : Type} {reader : Reader α} {text gap input rest behind : List Char} {value : α}
  {c : Char}

theorem bind_of_some {next : α → Reader β} (read : reader input = some (value, rest)) :
    (reader >>= next) input = next value rest := by
  change (reader input).bind (fun (value, rest) => next value rest) = _
  rw [read]
  rfl

theorem blanks_bind {next : Unit → Reader β} :
    (blanks >>= next) input = next () (input.dropWhile isBlank) := rfl

theorem get_bind {next : List Char → Reader β} :
    ((get : Reader (List Char)) >>= next) input = next input input := rfl

theorem guard_bind {condition : Prop} [Decidable condition] (holds : condition)
    {next : Unit → Reader β} :
    ((guard condition : Reader Unit) >>= next) input = next () input := by
  rw [guard, if_pos holds]
  rfl

theorem peek_bind {next : Option Char → Reader β} (ahead : input.dropWhile isBlank = c :: rest) :
    (peek >>= next) input = next (some c) (c :: rest) := by
  change next (input.dropWhile isBlank).head? (input.dropWhile isBlank) = _
  rw [ahead]
  rfl

theorem token_bind {next : Unit → Reader β} (ahead : input.dropWhile isBlank = c :: rest) :
    (token c >>= next) input = next () rest := by
  refine bind_of_some ?_
  unfold token
  rw [blanks_bind, get_bind, ahead]
  change (if c = c then set rest else failure : Reader Unit) (c :: rest) = _
  rw [if_pos rfl]
  rfl

theorem word_bind {word : String} {next : Unit → Reader β}
    (ahead : input.dropWhile isBlank = word.toList ++ rest) :
    (Reader.word word >>= next) input = next () rest := by
  refine bind_of_some ?_
  unfold Reader.word
  rw [blanks_bind, get_bind, ahead, List.isPrefixOf?_eq_some_iff_append_eq.mpr rfl]
  rfl

def Blank (text : List Char) : Prop :=
  ∀ c ∈ text, isBlank c = true

/-- No number goes on at the front of the text. -/
def Ends (behind : List Char) : Prop :=
  ∀ c ∈ behind.head?, c.isDigit = false ∧ c ∉ ['.', 'e', 'E']

/-- The text begins with a character, neither a blank nor a closing bracket. -/
def Begins (text : List Char) : Prop :=
  ∃ c rest, text = c :: rest ∧ isBlank c = false ∧ c ∉ [']', '\x7d']

theorem blank_nil : Blank [] :=
  List.forall_mem_nil _

theorem dropWhile_blank (blank : Blank gap) (visible : isBlank c = false) (rest : List Char) :
    (gap ++ c :: rest).dropWhile isBlank = c :: rest := by
  rw [List.dropWhile_append_of_pos blank, List.dropWhile_cons_of_neg (by simp [visible])]

theorem dropWhile_visible (visible : isBlank c = false) (rest : List Char) :
    (c :: rest).dropWhile isBlank = c :: rest :=
  dropWhile_blank blank_nil visible rest

theorem ends_nil : Ends [] := by
  intro c member
  contradiction

theorem ends_cons (digit : c.isDigit = false) (other : c ∉ ['.', 'e', 'E']) (rest : List Char) :
    Ends (c :: rest) := by
  intro first member
  obtain rfl := Option.some.inj member
  exact ⟨digit, other⟩

theorem Blank.ends (blank : Blank gap) (ends : Ends behind) : Ends (gap ++ behind) := by
  cases gap with
  | nil => exact ends
  | cons c gap =>
      have sort := blank c List.mem_cons_self
      simp only [isBlank, Bool.or_eq_true, decide_eq_true_eq] at sort
      rcases sort with ((rfl | rfl) | rfl) | rfl <;> exact ends_cons (by decide) (by decide) _

theorem Begins.append (begins : Begins text) (rest : List Char) : Begins (text ++ rest) := by
  obtain ⟨c, more, rfl, visible, opening⟩ := begins
  exact ⟨c, more ++ rest, rfl, visible, opening⟩

theorem Begins.dropWhile (begins : Begins text) (blank : Blank gap) (behind : List Char) :
    (gap ++ (text ++ behind)).dropWhile isBlank = text ++ behind := by
  obtain ⟨c, rest, rfl, visible, opening⟩ := begins
  exact dropWhile_blank blank visible _

/-- The reader takes the text and stops behind it. -/
structure Reads (reader : Reader α) (text : List Char) (value : α) : Prop where
  begins : Begins text
  read : ∀ {gap behind}, Blank gap → Ends behind →
    reader (gap ++ (text ++ behind)) = some (value, behind)

namespace Reads

theorem bind_of (reads : Reads reader text value) (blank : Blank gap) (ends : Ends behind)
    {next : α → Reader β} : (reader >>= next) (gap ++ (text ++ behind)) = next value behind :=
  bind_of_some (reads.read blank ends)

theorem bind_front (reads : Reads reader text value) (ends : Ends behind) {next : α → Reader β} :
    (reader >>= next) (text ++ behind) = next value behind :=
  reads.bind_of blank_nil ends

theorem read_all (reads : Reads reader text value) : reader text = some (value, []) := by
  simpa using reads.read blank_nil ends_nil

theorem map (reads : Reads reader text value) (f : α → β) :
    Reads (do return f (← reader)) text (f value) where
  begins := reads.begins
  read blank ends := reads.bind_of blank ends

/-- A reader that goes on as another once the blanks are passed. -/
theorem congr {other : Reader α} (reads : Reads reader text value)
    (same : ∀ {input rest}, input.dropWhile isBlank = text ++ rest →
      other input = reader (text ++ rest)) : Reads other text value where
  begins := reads.begins
  read {_gap behind} blank ends := by
    rw [same (reads.begins.dropWhile blank behind)]
    exact reads.read blank_nil ends

end Reads

section Delimited

variable {item : Reader α} {texts : List (List Char)} {values : List α} {front back : List Char}
  {«open» close : Char}

/-- Phrases between two brackets and divided by commas, with blanks in front of each phrase and
of the closing bracket. -/
def bracketed (front back : List Char) («open» close : Char) (texts : List (List Char)) :
    List Char :=
  «open» :: [','].intercalate (texts.map (front ++ ·)) ++ (back ++ [close])

/-- What stands behind the first of some phrases. -/
def further (front back : List Char) (texts : List (List Char)) (close : Char) : List Char :=
  texts.flatMap (fun text => ',' :: (front ++ text)) ++ (back ++ [close])

theorem bracketed_nil : bracketed front back «open» close [] = «open» :: (back ++ [close]) := rfl

theorem bracketed_cons :
    bracketed front back «open» close (text :: texts) =
      «open» :: (front ++ (text ++ further front back texts close)) := by
  unfold bracketed further
  rw [List.cons_append, List.cons.injEq]
  refine ⟨rfl, ?_⟩
  induction texts generalizing text with
  | nil => simp
  | cons next texts ih =>
      rw [List.map_cons, List.map_cons, List.intercalate_cons_cons, ← List.map_cons]
      simp only [List.append_assoc, List.cons_append, List.nil_append, List.flatMap_cons] at ih ⊢
      rw [ih]

theorem further_cons :
    further front back (text :: texts) close =
      ',' :: (front ++ (text ++ further front back texts close)) := by
  simp [further]

theorem length_lt_further : texts.length < (further front back texts close).length := by
  induction texts with
  | nil => simp [further]
  | cons text texts ih =>
      rw [further_cons]
      simp only [List.length_cons, List.length_append]
      omega

theorem length_le_of_mem (front back : List Char) (close : Char) {first : List Char}
    (member : text ∈ first :: texts) :
    text.length ≤ first.length + (further front back texts close).length := by
  induction texts generalizing first with
  | nil =>
      rw [List.mem_singleton.mp member]
      exact Nat.le_add_right _ _
  | cons next texts ih =>
      rw [further_cons]
      simp only [List.length_cons, List.length_append]
      rcases List.mem_cons.mp member with rfl | later
      · omega
      · have inside := ih later
        omega

theorem length_lt_bracketed (member : text ∈ texts) :
    text.length < (bracketed front back «open» close texts).length := by
  cases texts with
  | nil => contradiction
  | cons first texts =>
      have inside := length_le_of_mem front back close member
      rw [bracketed_cons]
      simp only [List.length_cons, List.length_append]
      omega

theorem closing_cases (closing : close ∈ [']', '\x7d']) :
    isBlank close = false ∧ close ≠ ',' ∧ ∀ rest, Ends (close :: rest) := by
  rcases List.mem_pair.mp closing with rfl | rfl
  · exact ⟨by decide, by decide, ends_cons (by decide) (by decide)⟩
  · exact ⟨by decide, by decide, ends_cons (by decide) (by decide)⟩

theorem dropWhile_closing (blank : Blank back) (closing : close ∈ [']', '\x7d'])
    (behind : List Char) :
    (back ++ [close] ++ behind).dropWhile isBlank = close :: behind := by
  rw [List.append_assoc]
  exact dropWhile_blank blank (closing_cases closing).1 behind

theorem ends_further (blank : Blank back) (closing : close ∈ [']', '\x7d']) :
    Ends (further front back texts close ++ behind) := by
  cases texts with
  | nil =>
      change Ends (back ++ [close] ++ behind)
      rw [List.append_assoc]
      exact blank.ends ((closing_cases closing).2.2 _)
  | cons text texts =>
      rw [further_cons]
      exact ends_cons (by decide) (by decide) _

theorem furtherUpTo_of_reads (before : Blank front) (blank : Blank back)
    (closing : close ∈ [']', '\x7d']) (reads : List.Forall₂ (Reads item) texts values)
    {bound : Nat} (enough : texts.length < bound) :
    furtherUpTo close item bound (further front back texts close ++ behind) =
      some (values, behind) := by
  obtain ⟨visible, noComma, _⟩ := closing_cases closing
  induction reads generalizing bound with
  | nil =>
      cases bound with
      | zero => contradiction
      | succ bound =>
          have ahead := dropWhile_closing blank closing behind
          change furtherUpTo close item _ (back ++ [close] ++ behind) = _
          rw [furtherUpTo, peek_bind ahead, if_neg (by simpa using noComma),
            token_bind (dropWhile_visible visible _)]
          rfl
  | cons first others ih =>
      cases bound with
      | zero => contradiction
      | succ bound =>
          have comma (rest : List Char) : (',' :: rest).dropWhile isBlank = ',' :: rest :=
            dropWhile_visible (by decide) rest
          rw [further_cons, List.cons_append, furtherUpTo, peek_bind (comma _), if_pos rfl,
            token_bind (comma _), List.append_assoc, List.append_assoc,
            first.bind_of before (ends_further blank closing),
            bind_of_some (ih (Nat.lt_of_succ_lt_succ enough))]
          rfl

/-- A list is read if its items are, with blanks in front of each item and of the bracket that
closes it. -/
theorem reads_delimited (opening : isBlank «open» = false ∧ «open» ∉ [']', '\x7d'])
    (closing : close ∈ [']', '\x7d']) (before : Blank front) (blank : Blank back)
    (reads : List.Forall₂ (Reads item) texts values) :
    Reads (delimited «open» close item) (bracketed front back «open» close texts) values where
  begins := ⟨_, _, rfl, opening⟩
  read := by
    intro gap behind skipped ends
    unfold delimited
    cases reads with
    | nil =>
        have ahead := dropWhile_closing blank closing behind
        have visible := (closing_cases closing).1
        rw [bracketed_nil, List.cons_append, token_bind (dropWhile_blank skipped opening.1 _),
          peek_bind ahead, if_pos rfl, token_bind (dropWhile_visible visible _)]
        rfl
    | @cons text value texts values first others =>
        -- The first item is no closing bracket, so the list is not taken for an empty one.
        obtain ⟨c, more, rfl, shown, proper⟩ := first.begins
        have other : c ≠ close := fun same => proper (same ▸ closing)
        have enough : texts.length < (further front back texts close ++ behind).length + 1 := by
          rw [List.length_append]
          exact Nat.lt_succ_of_lt (Nat.lt_add_right _ length_lt_further)
        rw [bracketed_cons, List.cons_append, token_bind (dropWhile_blank skipped opening.1 _),
          List.append_assoc, List.append_assoc, List.cons_append,
          peek_bind (dropWhile_blank before shown _), if_neg (by simpa using other),
          ← List.cons_append, first.bind_front (ends_further blank closing), get_bind,
          bind_of_some (furtherUpTo_of_reads before blank closing others enough)]
        rfl

end Delimited

end DocumentGraph.Json.Reader
