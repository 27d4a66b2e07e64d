import DocumentGraph.Document.FrontMatter
import DocumentGraph.Proofs.Text.Split

namespace DocumentGraph.Document.FrontMatter

/-! Where front matter ends.

The closing fence is looked for behind a newline, and the newline of the opening fence is gone by
then.  So lines between two fences are found as they are, whatever follows, but two fences with
nothing between them enclose no front matter.
-/

variable {lines : List (List Char)} {content block body : List Char}

/-- The two sorts of line ends. -/
inductive LineEnd where
  | lf
  | crlf
deriving DecidableEq

namespace LineEnd

/-- What stands in front of the newline. -/
def lead : LineEnd → List Char
  | lf => []
  | crlf => ['\r']

def text (ending : LineEnd) : List Char :=
  ending.lead ++ ['\n']

/-- Lines with line ends between them. -/
def join (ending : LineEnd) (lines : List (List Char)) : List Char :=
  ending.text.intercalate lines

theorem mem_lead (ending : LineEnd) : ∀ c ∈ ending.lead, c = '\r' := by
  cases ending with
  | lf => nofun
  | crlf => exact fun c member => List.mem_singleton.mp member

theorem join_cons_cons (ending : LineEnd) (line next : List Char) (lines : List (List Char)) :
    ending.join (line :: next :: lines) = line ++ (ending.text ++ ending.join (next :: lines)) :=
  List.intercalate_cons_cons.trans (List.append_assoc _ _ _)

theorem join_singleton (ending : LineEnd) (line : List Char) : ending.join [line] = line :=
  List.intercalate_singleton

theorem flatMap_ended (ending : LineEnd) (nonempty : lines ≠ []) :
    lines.flatMap (· ++ ending.text) = ending.join lines ++ ending.text := by
  induction lines with
  | nil => contradiction
  | cons line rest ih =>
      cases rest with
      | nil => rw [List.flatMap_singleton, join_singleton]
      | cons next rest =>
          rw [List.flatMap_cons, ih (List.cons_ne_nil _ _), join_cons_cons]
          simp only [List.append_assoc]

theorem join_append_lead (ending : LineEnd) (nonempty : lines ≠ []) :
    ending.join lines ++ ending.lead = ['\n'].intercalate (lines.map (· ++ ending.lead)) := by
  induction lines with
  | nil => contradiction
  | cons line rest ih =>
      cases rest with
      | nil => rw [join_singleton, List.map_singleton, List.intercalate_singleton]
      | cons next rest =>
          have later := ih (List.cons_ne_nil _ _)
          rw [join_cons_cons, List.append_assoc, List.append_assoc, later, text, List.map_cons,
            List.map_cons, List.map_cons, List.intercalate_cons_cons]
          simp only [List.append_assoc]

end LineEnd

/-- A document with the given lines between two fences. -/
def enclosed (ending : LineEnd) (lines : List (List Char)) (body : List Char) : List Char :=
  fence ++ (ending.text ++ (lines.flatMap (· ++ ending.text) ++ (fence ++ (ending.text ++ body))))

/-- No line break is in the line or begins at its end. -/
structure Unbroken (line : List Char) : Prop where
  newline : '\n' ∉ line
  ended : line.getLast? ≠ some '\r'

theorem behindFence?_append (ending : LineEnd) (rest : List Char) :
    behindFence? (fence ++ (ending.text ++ rest)) = some rest := by
  cases ending with
  | lf => rfl
  | crlf => rfl

theorem dropLineBreak_append (ending : LineEnd) (rest : List Char) :
    dropLineBreak (ending.text ++ rest) = rest := by
  cases ending with
  | lf => rfl
  | crlf => rfl

theorem split_of_cut {front behind rest : List Char} (opened : behindFence? content = some rest)
    (cut : Text.cutAt? ('\n' :: fence) rest = some (front, behind)) :
    split content =
      { block := some (Text.dropEnd ['\r'] front), body := dropLineBreak behind } := by
  unfold split
  rw [opened, Option.bind_some, cut]

theorem split_of_uncut {rest : List Char} (opened : behindFence? content = some rest)
    (uncut : Text.cutAt? ('\n' :: fence) rest = none) :
    split content = { block := none, body := content } := by
  unfold split
  rw [opened, Option.bind_some, uncut]

theorem getLast?_join (unbroken : ∀ line ∈ lines, Unbroken line) :
    (LineEnd.lf.join lines).getLast? ≠ some '\r' := by
  induction lines with
  | nil => nofun
  | cons line rest ih =>
      obtain ⟨here, later⟩ := List.forall_mem_cons.mp unbroken
      cases rest with
      | nil => rw [LineEnd.join_singleton]; exact here.ended
      | cons next rest =>
          rw [LineEnd.join_cons_cons, List.getLast?_append, List.getLast?_append]
          have last := ih later
          cases found : (LineEnd.lf.join (next :: rest)).getLast? with
          | none => simp [LineEnd.text, LineEnd.lead]
          | some c => simpa [found] using last

theorem dropEnd_join (ending : LineEnd) (unbroken : ∀ line ∈ lines, Unbroken line) :
    Text.dropEnd ['\r'] (ending.join lines ++ ending.lead) = ending.join lines := by
  cases ending with
  | crlf => exact Text.dropEnd_append _ _
  | lf =>
      rw [LineEnd.lead, List.append_nil]
      exact Text.dropEnd_eq_self (getLast?_join unbroken)

/-- Where a line with its line end begins with a fence, the line does. -/
theorem fence_prefix_append_lead (ending : LineEnd) {line : List Char} :
    fence <+: line ++ ending.lead ↔ fence <+: line := by
  cases ending with
  | lf => rw [LineEnd.lead, List.append_nil]
  | crlf =>
      constructor
      · exact Text.prefix_of_prefix_append_cons (by decide)
      · exact fun begins => begins.trans (List.prefix_append line _)

/-- Lines between fences are found, and what follows the closing fence.  Only the first line may
look like a fence. -/
theorem split_enclosed_cons (ending : LineEnd) {first : List Char} {rest : List (List Char)}
    (unbroken : ∀ line ∈ first :: rest, Unbroken line) (plain : ∀ line ∈ rest, ¬ fence <+: line)
    (body : List Char) :
    split (enclosed ending (first :: rest) body) =
      { block := some (ending.join (first :: rest)), body } := by
  have nonempty : first :: rest ≠ [] := List.cons_ne_nil first rest
  have shape : enclosed ending (first :: rest) body = fence ++ (ending.text ++
      ((ending.join (first :: rest) ++ ending.lead) ++ '\n' :: (fence ++ (ending.text ++ body)))) := by
    rw [enclosed, ending.flatMap_ended nonempty]
    simp only [LineEnd.text, List.append_assoc, List.cons_append, List.nil_append]
  have lines : Text.splitOn '\n' (ending.join (first :: rest) ++ ending.lead) =
      (first ++ ending.lead) :: rest.map (· ++ ending.lead) := by
    rw [ending.join_append_lead nonempty]
    apply Text.splitOn_intercalate _ (by simp)
    intro piece member
    obtain ⟨line, known, rfl⟩ := List.mem_map.mp member
    intro newline
    rcases List.mem_append.mp newline with within | lead
    · exact (unbroken line known).newline within
    · exact absurd (ending.mem_lead _ lead) (by decide)
  have absent : ¬ '\n' :: fence <:+: ending.join (first :: rest) ++ ending.lead := by
    rw [Text.infix_iff_of_splitOn (by decide) lines]
    intro ⟨piece, member, begins⟩
    obtain ⟨line, known, rfl⟩ := List.mem_map.mp member
    exact plain line known ((fence_prefix_append_lead ending).mp begins)
  rw [shape, split_of_cut (behindFence?_append ending _) (Text.cutAt?_append (by decide) absent _),
    dropEnd_join ending unbroken, dropLineBreak_append]

theorem behindFence?_enclosed_nil (ending : LineEnd) (body : List Char) :
    behindFence? (enclosed ending [] body) = some (fence ++ (ending.text ++ body)) :=
  behindFence?_append ending _

theorem cutAt?_enclosed_nil (ending : LineEnd) (body : List Char) :
    Text.cutAt? ('\n' :: fence) (fence ++ (ending.text ++ body)) = none ↔
      ∀ line ∈ Text.splitOn '\n' body, ¬ fence <+: line := by
  have lines : Text.splitOn '\n' (fence ++ (ending.text ++ body)) =
      (fence ++ ending.lead) :: Text.splitOn '\n' body := by
    have shape : fence ++ (ending.text ++ body) = (fence ++ ending.lead) ++ '\n' :: body := by
      simp only [LineEnd.text, List.append_assoc, List.cons_append, List.nil_append]
    have first : '\n' ∉ fence ++ ending.lead := by cases ending <;> decide
    rw [shape, Text.splitOn_append_cons first]
  rw [Text.cutAt?_eq_none_iff (List.cons_ne_nil _ _),
    Text.infix_iff_of_splitOn (by decide) lines]
  simp only [not_exists, not_and]

theorem split_enclosed_nil_iff (ending : LineEnd) (body : List Char) :
    split (enclosed ending [] body) = { block := none, body := enclosed ending [] body } ↔
      ∀ line ∈ Text.splitOn '\n' body, ¬ fence <+: line := by
  rw [← cutAt?_enclosed_nil ending body]
  have opened := behindFence?_enclosed_nil ending body
  cases cut : Text.cutAt? ('\n' :: fence) (fence ++ (ending.text ++ body)) with
  | none => exact iff_of_true (split_of_uncut opened cut) rfl
  | some found =>
      rw [split_of_cut opened cut]
      exact iff_of_false (fun same => nomatch congrArg Parts.block same) nofun

theorem exists_lead (front : List Char) :
    ∃ ending : LineEnd, front = Text.dropEnd ['\r'] front ++ ending.lead := by
  unfold Text.dropEnd
  cases found : ['\r'].isSuffixOf? front with
  | none => exact ⟨.lf, (List.append_nil front).symm⟩
  | some text => exact ⟨.crlf, (List.isSuffixOf?_eq_some_iff_append_eq.mp found).symm⟩

/-- The second fence is never the closing one: it stands in the block, if there is one. -/
theorem fence_prefix_block (ending : LineEnd)
    (closed : (split (enclosed ending [] body)).block = some block) : fence <+: block := by
  have opened := behindFence?_enclosed_nil ending body
  cases cut : Text.cutAt? ('\n' :: fence) (fence ++ (ending.text ++ body)) with
  | none =>
      rw [split_of_uncut opened cut] at closed
      contradiction
  | some found =>
      obtain ⟨front, behind⟩ := found
      rw [split_of_cut opened cut] at closed
      obtain rfl := Option.some.inj closed
      have whole := Text.eq_append_of_cutAt? cut
      rw [List.append_assoc] at whole
      have begins : fence <+: front := by
        apply Text.prefix_of_prefix_append_cons (show '\n' ∉ fence by decide)
        exact whole ▸ List.prefix_append fence _
      obtain ⟨ending', kept⟩ := exists_lead front
      rw [kept, fence_prefix_append_lead] at begins
      exact begins

theorem exists_ending_of_behindFence? {rest : List Char}
    (opened : behindFence? content = some rest) :
    ∃ ending : LineEnd, content = fence ++ (ending.text ++ rest) := by
  unfold behindFence? at opened
  obtain ⟨behind, begins, ended⟩ := Option.bind_eq_some_iff.mp opened
  have whole := List.isPrefixOf?_eq_some_iff_append_eq.mp begins
  split at ended
  · obtain rfl := Option.some.inj ended
    exact ⟨.lf, whole.symm⟩
  · obtain rfl := Option.some.inj ended
    exact ⟨.crlf, whole.symm⟩
  · contradiction

/-- Without front matter all is body; with it, the parts stand between and behind the fences. -/
theorem split_cases (content : List Char) :
    split content = { block := none, body := content } ∨
      ∃ (ending : LineEnd) (front behind : List Char),
        content = fence ++ (ending.text ++ (front ++ '\n' :: (fence ++ behind))) ∧
        split content =
          { block := some (Text.dropEnd ['\r'] front), body := dropLineBreak behind } := by
  cases opened : behindFence? content with
  | none => exact .inl (by rw [split, opened, Option.bind_none])
  | some rest =>
      cases cut : Text.cutAt? ('\n' :: fence) rest with
      | none => exact .inl (split_of_uncut opened cut)
      | some found =>
          obtain ⟨front, behind⟩ := found
          obtain ⟨ending, whole⟩ := exists_ending_of_behindFence? opened
          rw [Text.eq_append_of_cutAt? cut, List.append_assoc] at whole
          exact .inr ⟨ending, front, behind, whole, split_of_cut opened cut⟩

theorem dropLineBreak_cases (text : List Char) :
    dropLineBreak text = text ∨ ∃ ending : LineEnd, text = ending.text ++ dropLineBreak text := by
  unfold dropLineBreak
  split
  · exact .inr ⟨.crlf, rfl⟩
  · exact .inr ⟨.lf, rfl⟩
  · exact .inl rfl

/-- What stands behind the fences is an end of the document. -/
theorem body_suffix (content : List Char) : (split content).body <:+ content := by
  rcases split_cases content with whole | ⟨ending, front, behind, whole, parts⟩
  · rw [whole]
  · have inner : dropLineBreak behind <:+ behind := by
      rcases dropLineBreak_cases behind with kept | ⟨ending', dropped⟩
      · rw [kept]
      · exact ⟨ending'.text, dropped.symm⟩
    rw [parts]
    refine inner.trans ⟨fence ++ (ending.text ++ (front ++ '\n' :: fence)), ?_⟩
    rw [whole]
    simp only [List.append_assoc, List.cons_append]

/-- Lines between two fences are the front matter, and only the first of them may look like a
fence.  Without lines there is none, unless a later line closes the second fence in.  The body is
always an end of the document. -/
theorem split_enclosed (ending : LineEnd) (body content : List Char) :
    (∀ lines, lines ≠ [] → (∀ line ∈ lines, Unbroken line) →
      (∀ line ∈ lines.tail, ¬ fence <+: line) →
      split (enclosed ending lines body) = { block := some (ending.join lines), body }) ∧
    (split (enclosed ending [] body) = { block := none, body := enclosed ending [] body } ↔
      ∀ line ∈ Text.splitOn '\n' body, ¬ fence <+: line) ∧
    (∀ block, (split (enclosed ending [] body)).block = some block → fence <+: block) ∧
    (split content).body <:+ content := by
  refine ⟨fun lines nonempty unbroken plain => ?_, split_enclosed_nil_iff ending body,
    fun block => fence_prefix_block ending, body_suffix content⟩
  obtain ⟨first, rest, rfl⟩ := List.exists_cons_of_ne_nil nonempty
  exact split_enclosed_cons ending unbroken plain body

/-- A blank line in front of the closing fence is kept, and a line that looks like a fence is in the
body or, where the second fence is not the closing one, in the block. -/
theorem split_enclosed_blankLine :
    split (enclosed .crlf ["name: x".toList, []] "---".toList) =
      { block := some "name: x\r\n".toList, body := "---".toList } ∧
    (split (enclosed .lf [] "name: x".toList)).block = none ∧
    fence <+: "---\nname: x".toList ∧
    "b".toList <:+ "---\na\n---\nb".toList := by
  have unbroken : ∀ line ∈ ["name: x".toList, []], Unbroken line := by
    intro line member
    rcases List.mem_pair.mp member with rfl | rfl
    · exact ⟨by decide, by decide⟩
    · exact ⟨by decide, by decide⟩
  have between := (split_enclosed .crlf "---".toList []).1 ["name: x".toList, []] (by decide)
    unbroken (by decide)
  have nothing := (split_enclosed .lf "name: x".toList []).2.1.mpr (by decide)
  have second := (split_enclosed .lf "name: x\n---".toList []).2.2.1 "---\nname: x".toList
    (by decide +kernel)
  have body := (split_enclosed .lf [] "---\na\n---\nb".toList).2.2.2
  exact ⟨between, congrArg Parts.block nothing, second, body⟩

/-- A fence that is closed at once is no front matter. -/
theorem split_enclosed_nothing :
    enclosed .lf [] "body".toList = "---\n---\nbody".toList ∧
      split "---\n---\nbody".toList = { block := none, body := "---\n---\nbody".toList } := by
  decide +kernel

end DocumentGraph.Document.FrontMatter
