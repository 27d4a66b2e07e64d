import DocumentGraph.Document.Markup
import DocumentGraph.Proofs.Text.Blank
import DocumentGraph.Proofs.Text.Split

namespace DocumentGraph.Document

/-! Matches of patterns.

A pattern is searched for from left to right: the first match is one that no other begins in front
of, and the search goes on behind it.  The searches for links and headings find what the patterns
match in this way.
-/

variable {α : Type} {matched : α → List Char → Prop} {text part behind : List Char} {item : α}
  {items : List α} {c : Char}

/-- A match stands at the beginning of the text. -/
def Begins (matched : α → List Char → Prop) (text : List Char) : Prop :=
  ∃ item part behind, matched item part ∧ text = part ++ behind

/-- The matches in a text from left to right. -/
inductive Leftmost (matched : α → List Char → Prop) : List Char → List α → Prop
  | none {text : List Char} (absent : ∀ rest, rest <:+ text → ¬ Begins matched rest) :
      Leftmost matched text []
  | next {front part behind : List Char} {item : α} {items : List α} (fits : matched item part)
      (first : ∀ rest, rest <:+ front ++ (part ++ behind) → Begins matched rest →
        rest.length ≤ (part ++ behind).length)
      (later : Leftmost matched behind items) :
      Leftmost matched (front ++ (part ++ behind)) (item :: items)

/-- A search that takes a match where one begins, and else goes on with the next character. -/
structure Searches (matched : α → List Char → Prop) (found : List Char → List α) : Prop where
  ended : found [] = []
  takes : ∀ item part behind, matched item part → found (part ++ behind) = item :: found behind
  passes : ∀ c text, ¬ Begins matched (c :: text) → found (c :: text) = found text

theorem Leftmost.cons (other : ¬ Begins matched (c :: text))
    (leftmost : Leftmost matched text items) : Leftmost matched (c :: text) items := by
  cases leftmost with
  | none absent =>
      refine .none fun rest ends => ?_
      rcases List.suffix_cons_iff.mp ends with rfl | ends
      · exact other
      · exact absent rest ends
  | @next front part behind item items fits first later =>
      have whole : c :: (front ++ (part ++ behind)) = (c :: front) ++ (part ++ behind) := rfl
      rw [whole] at other ⊢
      refine .next fits (fun rest ends begins => ?_) later
      rcases List.suffix_cons_iff.mp ends with rfl | ends
      · exact absurd begins other
      · exact first rest ends begins

namespace Searches

variable {found : List Char → List α} (searches : Searches matched found)

include searches

/-- An empty match would be taken again and again. -/
theorem ne_nil (fits : matched item part) : part ≠ [] := by
  rintro rfl
  have taken := searches.takes item [] [] fits
  rw [List.append_nil, searches.ended] at taken
  contradiction

theorem leftmost_found (text : List Char) : Leftmost matched text (found text) := by
  induction length : text.length using Nat.strong_induction_on generalizing text with
  | h size ih =>
    by_cases begins : Begins matched text
    · obtain ⟨item, part, behind, fits, rfl⟩ := begins
      have shorter : behind.length < size := by
        have filled := List.length_pos_of_ne_nil (searches.ne_nil fits)
        rw [List.length_append] at length
        omega
      have taken : Leftmost matched ([] ++ (part ++ behind)) (item :: found behind) :=
        .next fits (fun rest ends _ => ends.length_le) (ih _ shorter behind rfl)
      rw [searches.takes item part behind fits]
      exact taken
    · cases text with
      | nil =>
          rw [searches.ended]
          refine .none fun rest ends => ?_
          rwa [List.suffix_nil.mp ends]
      | cons c text =>
          rw [searches.passes c text begins]
          exact (ih text.length (by simp [← length]) text rfl).cons begins

theorem found_eq_nil (absent : ∀ rest, rest <:+ text → ¬ Begins matched rest) :
    found text = [] := by
  induction text with
  | nil => exact searches.ended
  | cons c text ih =>
      rw [searches.passes c text (absent _ (List.suffix_refl _))]
      exact ih fun rest ends => absent rest (ends.trans (List.suffix_cons _ _))

theorem found_append {front : List Char} (fits : matched item part)
    (first : ∀ rest, rest <:+ front ++ (part ++ behind) → Begins matched rest →
      rest.length ≤ (part ++ behind).length) :
    found (front ++ (part ++ behind)) = item :: found behind := by
  induction front with
  | nil => exact searches.takes item part behind fits
  | cons c front ih =>
      have other : ¬ Begins matched (c :: (front ++ (part ++ behind))) := by
        intro begins
        have short := first _ (List.suffix_refl _) begins
        simp only [List.cons_append, List.length_cons, List.length_append] at short
        omega
      rw [List.cons_append, searches.passes c _ other]
      exact ih fun rest ends => first rest (ends.trans (List.suffix_cons _ _))

/-- A search passes over text without the character that every match begins with. -/
theorem found_append_of_not_mem (opens : ∀ item part, matched item part → part.head? = some c)
    (front text : List Char) (absent : c ∉ front) : found (front ++ text) = found text := by
  induction front with
  | nil => rfl
  | cons d front ih =>
      obtain ⟨other, later⟩ := List.ne_and_not_mem_of_not_mem_cons absent
      have passed : ¬ Begins matched (d :: (front ++ text)) := by
        intro ⟨item, part, behind, fits, whole⟩
        obtain ⟨e, rest, rfl⟩ := List.exists_cons_of_ne_nil (searches.ne_nil fits)
        have head : d = e := (List.cons.inj whole).1
        exact other (head.trans (Option.some.inj (opens item _ fits))).symm
      rw [List.cons_append, searches.passes d _ passed, ih later]

/-- A search finds the matches from left to right, and nothing else does. -/
theorem leftmost_iff : Leftmost matched text items ↔ found text = items := by
  constructor
  · intro leftmost
    induction leftmost with
    | none absent => exact searches.found_eq_nil absent
    | next fits first later ih => rw [searches.found_append fits first, ih]
  · rintro rfl
    exact searches.leftmost_found text

theorem exists_matched (member : item ∈ found text) : ∃ part, matched item part := by
  have leftmost := searches.leftmost_found text
  generalize found text = items at member leftmost
  induction leftmost with
  | none absent => contradiction
  | next fits first later ih =>
      rcases List.mem_cons.mp member with rfl | further
      · exact ⟨_, fits⟩
      · exact ih further

end Searches

/-- The written form of a link between doubled brackets. -/
def WikiLink.written (link : WikiLink) : List Char :=
  '[' :: '[' :: (link.target ++ (link.label.elim [] ('|' :: ·) ++ [']', ']']))

/-- The pattern `\[\[([^\]|]+)(?:\|([^\]]+))?\]\]` matches the link as it is written. -/
structure WikiLink.Fits (link : WikiLink) : Prop where
  filled : link.target ≠ []
  closing : ']' ∉ link.target
  bar : '|' ∉ link.target
  label : ∀ label ∈ link.label, label ≠ [] ∧ ']' ∉ label

/-- The written form of a link by path. -/
def PathLink.written (link : PathLink) : List Char :=
  '[' :: (link.text ++ ']' :: '(' :: (link.path ++ [')']))

/-- The pattern `\[([^\]]+)\]\((\.[^)]+\.md)\)` matches the link as it is written. -/
structure PathLink.Fits (link : PathLink) : Prop where
  filled : link.text ≠ []
  text : ']' ∉ link.text
  path : ')' ∉ link.path
  document : ∃ inner, inner ≠ [] ∧ link.path = '.' :: (inner ++ ['.', 'm', 'd'])

def WikiLink.Matched (link : WikiLink) (part : List Char) : Prop :=
  link.Fits ∧ part = link.written

def PathLink.Matched (link : PathLink) (part : List Char) : Prop :=
  link.Fits ∧ part = link.written

theorem isDocumentPath_iff {path : List Char} :
    isDocumentPath path = true ↔
      ∃ inner, inner ≠ [] ∧ path = '.' :: (inner ++ ['.', 'm', 'd']) := by
  simp only [isDocumentPath, Bool.and_eq_true, decide_eq_true_eq, List.isSuffixOf_iff_suffix]
  constructor
  · rintro ⟨⟨first, front, rfl⟩, long⟩
    cases front with
    | nil => contradiction
    | cons c inner =>
        obtain rfl : c = '.' := Option.some.inj first
        refine ⟨inner, ?_, rfl⟩
        rintro rfl
        contradiction
  · rintro ⟨inner, filled, rfl⟩
    have some := List.length_pos_of_ne_nil filled
    refine ⟨⟨rfl, '.' :: inner, rfl⟩, ?_⟩
    simp only [List.length_cons, List.length_append, List.length_nil]
    omega

/-- A text is cut in front of the first character that is not taken. -/
theorem exists_cut (p : Char → Bool) (text : List Char) :
    ∃ front rest, text = front ++ rest ∧ text.takeWhile p = front ∧ text.drop front.length = rest ∧
      (∀ c ∈ front, p c = true) ∧ ∀ c ∈ rest.head?, p c = false := by
  have ends : ∀ c ∈ (text.dropWhile p).head?, p c = false := by
    intro c head
    have stopped := List.head?_dropWhile_not p text
    rw [Option.mem_def.mp head] at stopped
    exact stopped
  refine ⟨_, _, (List.takeWhile_append_dropWhile (p := p)).symm, rfl, ?_,
    fun c member => List.mem_takeWhile_imp member, ends⟩
  exact (congrArg (List.drop _) List.takeWhile_append_dropWhile.symm).trans List.drop_left

theorem wikiLinkAt?_sound {link : WikiLink} {size : Nat}
    (read : wikiLinkAt? text = some (link, size)) :
    link.Fits ∧ '[' :: '[' :: text = link.written ++ text.drop size := by
  unfold wikiLinkAt? at read
  obtain ⟨target, rest, rfl, taken, dropped, plain, -⟩ :=
    exists_cut (fun c => c ≠ ']' && c ≠ '|') text
  simp only [taken, dropped] at read
  have closing : ']' ∉ target := fun member => by simpa using plain _ member
  have bar : '|' ∉ target := fun member => by simpa using plain _ member
  split at read
  · contradiction
  · rename_i filled
    have filled : target ≠ [] := by simpa using filled
    split at read
    · rename_i behind
      obtain ⟨rfl, rfl⟩ := Prod.mk.inj (Option.some.inj read)
      exact ⟨⟨filled, closing, bar, by simp⟩,
        by simp [WikiLink.written, List.drop_length_add_append]⟩
    · rename_i more
      obtain ⟨label, rest, rfl, taken, dropped, plain, -⟩ := exists_cut (· ≠ ']') more
      simp only [taken, dropped] at read
      have closing' : ']' ∉ label := fun member => by simpa using plain _ member
      split at read
      · contradiction
      · rename_i filled'
        have filled' : label ≠ [] := by simpa using filled'
        split at read
        · rename_i behind
          obtain ⟨rfl, rfl⟩ := Prod.mk.inj (Option.some.inj read)
          have size : target.length + label.length + 3 =
            target.length + (label.length + 2 + 1) := by omega
          exact ⟨⟨filled, closing, bar, by simpa using ⟨filled', closing'⟩⟩,
            by simp [WikiLink.written, size, List.drop_length_add_append]⟩
        · contradiction
    · contradiction

theorem pathLinkAt?_sound {link : PathLink} {size : Nat}
    (read : pathLinkAt? text = some (link, size)) :
    link.Fits ∧ '[' :: text = link.written ++ text.drop size := by
  unfold pathLinkAt? at read
  obtain ⟨label, rest, rfl, taken, dropped, plain, -⟩ := exists_cut (· ≠ ']') text
  simp only [taken, dropped] at read
  have closing : ']' ∉ label := fun member => by simpa using plain _ member
  split at read
  · contradiction
  · rename_i filled
    have filled : label ≠ [] := by simpa using filled
    split at read
    · rename_i more
      obtain ⟨path, rest, rfl, taken, dropped, plain', ends⟩ := exists_cut (· ≠ ')') more
      simp only [taken, dropped] at read
      have closing' : ')' ∉ path := fun member => by simpa using plain' _ member
      split at read
      · rename_i document
        rw [Bool.and_eq_true, decide_eq_true_iff] at document
        obtain ⟨document, further⟩ := document
        obtain ⟨c, behind, rfl⟩ := List.exists_cons_of_ne_nil further
        obtain rfl : c = ')' := by simpa using ends
        obtain ⟨rfl, rfl⟩ := Prod.mk.inj (Option.some.inj read)
        have size : label.length + path.length + 3 =
          label.length + (path.length + 1 + 2) := by omega
        exact ⟨⟨filled, closing, closing', isDocumentPath_iff.mp document⟩,
          by simp [PathLink.written, size, List.drop_length_add_append]⟩
      · contradiction
    · contradiction

section Wiki

variable {link : WikiLink} (fits : link.Fits)

include fits

/-- A target reaches up to the first closing bracket or bar. -/
theorem WikiLink.Fits.takeWhile_target {stop : Char} (ends : stop = ']' ∨ stop = '|')
    (behind : List Char) :
    (link.target ++ stop :: behind).takeWhile (fun c => c ≠ ']' && c ≠ '|') = link.target := by
  have others : ∀ c ∈ link.target, (decide (c ≠ ']') && decide (c ≠ '|')) = true := by
    intro c member
    simpa using ⟨ne_of_mem_of_not_mem member fits.closing, ne_of_mem_of_not_mem member fits.bar⟩
  rw [List.takeWhile_append_of_pos others, List.takeWhile_cons_of_neg, List.append_nil]
  rcases ends with rfl | rfl <;> decide

/-- A link is read where it begins. -/
theorem WikiLink.Fits.exists_wikiLinkAt? (behind : List Char) :
    ∃ text size, link.written ++ behind = '[' :: '[' :: text ∧ text.drop size = behind ∧
      wikiLinkAt? text = some (link, size) := by
  have filled : link.target.isEmpty = false := List.isEmpty_eq_false_iff.mpr fits.filled
  obtain ⟨target, label⟩ := link
  cases label with
  | none =>
      refine ⟨target ++ ']' :: ']' :: behind, target.length + 2, by simp [WikiLink.written], ?_, ?_⟩
      · rw [List.drop_length_add_append]
        rfl
      · unfold wikiLinkAt?
        simp only [fits.takeWhile_target (.inl rfl), filled, List.drop_left]
        rfl
  | some label =>
      obtain ⟨labelled, closing⟩ := fits.label label rfl
      have filled' : label.isEmpty = false := List.isEmpty_eq_false_iff.mpr labelled
      refine ⟨target ++ '|' :: (label ++ ']' :: ']' :: behind),
        target.length + (label.length + 2 + 1), by simp [WikiLink.written], ?_, ?_⟩
      · rw [List.drop_length_add_append, List.drop_succ_cons, List.drop_length_add_append]
        rfl
      · unfold wikiLinkAt?
        simp only [fits.takeWhile_target (.inr rfl), filled, List.drop_left,
          Text.takeWhile_append_cons closing, filled']
        rfl

end Wiki

theorem searches_wikiLinks : Searches WikiLink.Matched wikiLinks where
  ended := by rw [wikiLinks]
  takes := by
    rintro link _ behind ⟨fits, rfl⟩
    obtain ⟨text, size, spelled, beyond, read⟩ := fits.exists_wikiLinkAt? behind
    rw [spelled, wikiLinks, read]
    simp only [beyond]
  passes := by
    intro c text other
    by_cases opens : ∃ rest, c :: text = '[' :: '[' :: rest
    · obtain ⟨rest, same⟩ := opens
      obtain ⟨rfl, rfl⟩ := List.cons.inj same
      rw [wikiLinks]
      cases read : wikiLinkAt? rest with
      | none => rfl
      | some found =>
          obtain ⟨fits, spelled⟩ := wikiLinkAt?_sound read
          exact absurd ⟨_, _, _, ⟨fits, rfl⟩, spelled⟩ other
    · rw [wikiLinks]
      rintro rest rfl rfl
      exact opens ⟨rest, rfl⟩

/-- The links between doubled brackets are found as the pattern matches them. -/
theorem wikiLinks_eq_iff {links : List WikiLink} :
    wikiLinks text = links ↔ Leftmost WikiLink.Matched text links :=
  searches_wikiLinks.leftmost_iff.symm

theorem PathLink.Fits.pathLinkAt? {link : PathLink} (fits : link.Fits) (behind : List Char) :
    Document.pathLinkAt? (link.text ++ ']' :: '(' :: (link.path ++ ')' :: behind)) =
      some (link, link.text.length + link.path.length + 3) := by
  have filled : link.text.isEmpty = false := List.isEmpty_eq_false_iff.mpr fits.filled
  have document : isDocumentPath link.path = true := isDocumentPath_iff.mpr fits.document
  unfold Document.pathLinkAt?
  simp only [Text.takeWhile_append_cons fits.text, filled, List.drop_left,
    Text.takeWhile_append_cons fits.path, document]
  rfl

theorem searches_pathLinks : Searches PathLink.Matched pathLinks where
  ended := by rw [pathLinks]
  takes := by
    rintro link _ behind ⟨fits, rfl⟩
    have spelled : link.written ++ behind =
        '[' :: (link.text ++ ']' :: '(' :: (link.path ++ ')' :: behind)) := by
      simp [PathLink.written]
    have size : link.text.length + link.path.length + 3 =
      link.text.length + (link.path.length + 1 + 2) := by omega
    rw [spelled, pathLinks, fits.pathLinkAt?, size]
    simp [List.drop_length_add_append]
  passes := by
    intro c text other
    by_cases opens : c = '['
    · subst opens
      rw [pathLinks]
      cases read : pathLinkAt? text with
      | none => rfl
      | some found =>
          obtain ⟨fits, spelled⟩ := pathLinkAt?_sound read
          exact absurd ⟨_, _, _, ⟨fits, rfl⟩, spelled⟩ other
    · rw [pathLinks]
      exact opens

/-- The links by path are found as the pattern matches them. -/
theorem pathLinks_eq_iff {links : List PathLink} :
    pathLinks text = links ↔ Leftmost PathLink.Matched text links :=
  searches_pathLinks.leftmost_iff.symm

/-- The pattern `^#[ \t]+(.+)$` matches a heading, and its text is what the group matches, without
the blanks around it. -/
theorem heading?_eq_some_iff {line title : List Char} :
    heading? line = some title ↔ ∃ blanks group, blanks ≠ [] ∧ group ≠ [] ∧
      (∀ c ∈ blanks, c = ' ' ∨ c = '\t') ∧ line = '#' :: (blanks ++ group) ∧
      Text.trim group = title := by
  constructor
  · intro heading
    unfold heading? at heading
    split at heading
    · rename_i blank c rest
      split at heading
      · rename_i blanks
        refine ⟨[blank], c :: rest, by simp, by simp, ?_, rfl, Option.some.inj heading⟩
        simpa using blanks
      · contradiction
    · contradiction
  · rintro ⟨blanks, group, spaced, filled, blank, rfl, rfl⟩
    obtain ⟨b, more, rfl⟩ := List.exists_cons_of_ne_nil spaced
    obtain ⟨first, others⟩ := List.forall_mem_cons.mp blank
    have trimmed : Text.trim (more ++ group) = Text.trim group := by
      have skipped : ∀ c ∈ more, Text.isBlank c = true := by
        intro c member
        rcases others c member with rfl | rfl <;> decide
      rw [Text.trim, List.dropWhile_append_of_pos skipped, Text.trim]
    obtain ⟨c, rest, whole⟩ : ∃ c rest, more ++ group = c :: rest :=
      List.exists_cons_of_ne_nil (List.append_ne_nil_of_right_ne_nil more filled)
    rw [List.cons_append, whole, heading?, if_pos (by simpa using first), ← whole, trimmed]

/-- The title is the text of the first line that is a heading, unless that is blank. -/
theorem title?_eq_some_iff {title : List Char} : title? text = some title ↔ title ≠ [] ∧
    ∃ before line after, text.splitOn '\n' = before ++ line :: after ∧
      heading? line = some title ∧ ∀ other ∈ before, heading? other = none := by
  rw [← List.findSome?_eq_some_iff, title?, Text.splitOn_eq]
  cases (text.splitOn '\n').findSome? heading? with
  | none => simp
  | some found => cases found <;> grind

end DocumentGraph.Document
