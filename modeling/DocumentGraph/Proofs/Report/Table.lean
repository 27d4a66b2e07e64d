import DocumentGraph.Proofs.Evaluate.Selection
import DocumentGraph.Proofs.Query.RoundTrip
import DocumentGraph.Proofs.Text.Split
import DocumentGraph.Report.Text

namespace DocumentGraph

open Query (Aggregate PropertyAccess ReturnExpression ReturnItem isName isNamePart)

/-! Tables from their reports.

A report can be read back: its lines end where the line breaks are, its fields where the tabs are.
The texts of the cells stand escaped, so neither character is in one; the columns do not, but the
names, dots and parentheses that a column is spelled with are other characters.
-/

namespace Report

/-- A text that stays on its line and in its field. -/
def Unbroken (text : List Char) : Prop :=
  '\t' ∉ text ∧ '\n' ∉ text

instance (text : List Char) : Decidable (Unbroken text) :=
  inferInstanceAs (Decidable (_ ∧ _))

theorem Unbroken.append {text other : List Char} (first : Unbroken text) (second : Unbroken other) :
    Unbroken (text ++ other) :=
  ⟨fun member => (List.mem_append.mp member).elim first.1 second.1,
    fun member => (List.mem_append.mp member).elim first.2 second.2⟩

/-- Undoes the escapes of a cell. -/
def unescape : List Char → List Char
  | '\\' :: '\\' :: rest => '\\' :: unescape rest
  | '\\' :: 't' :: rest => '\t' :: unescape rest
  | '\\' :: 'n' :: rest => '\n' :: unescape rest
  | '\\' :: 'r' :: rest => '\r' :: unescape rest
  | c :: rest => c :: unescape rest
  | [] => []

theorem unescape_cons {c : Char} (plain : c ≠ '\\') (rest : List Char) :
    unescape (c :: rest) = c :: unescape rest := by
  rw [unescape] <;> intros <;> contradiction

theorem unescape_escapeChar (c : Char) (rest : List Char) :
    unescape (escapeChar c ++ rest) = c :: unescape rest := by
  unfold escapeChar
  split
  case h_5 slash _ _ _ => exact unescape_cons slash rest
  all_goals rfl

theorem unescape_escape (text : String) : unescape (escape text).toList = text.toList := by
  rw [escape, String.toList_ofList]
  induction text.toList with
  | nil => rfl
  | cons c rest ih => rw [List.flatMap_cons, unescape_escapeChar, ih]

theorem unbroken_escapeChar (c : Char) : Unbroken (escapeChar c) := by
  unfold escapeChar
  split
  case h_5 _ tab line _ =>
    exact ⟨fun member => tab (List.mem_singleton.mp member).symm,
      fun member => line (List.mem_singleton.mp member).symm⟩
  all_goals decide

theorem unbroken_escape (text : String) : Unbroken (escape text).toList := by
  rw [escape, String.toList_ofList]
  induction text.toList with
  | nil => decide
  | cons c rest ih => exact (unbroken_escapeChar c).append ih

/-- Puts a text in the place of every occurrence of a character. -/
def replace (old : Char) (new text : List Char) : List Char :=
  text.flatMap fun c => if c = old then new else [c]

/-- Escaping is replacing the four characters one after another.  The backslashes come first, so
those that the other replacements bring are left alone. -/
theorem toList_escape (text : String) :
    (escape text).toList =
      replace '\r' ['\\', 'r'] (replace '\n' ['\\', 'n']
        (replace '\t' ['\\', 't'] (replace '\\' ['\\', '\\'] text.toList))) := by
  rw [escape, String.toList_ofList]
  simp only [replace, List.flatMap_assoc]
  refine List.flatMap_congr fun c _ => ?_
  unfold escapeChar
  split
  case h_5 slash tab line back =>
    simp only [if_neg slash, if_neg tab, if_neg line, if_neg back, List.flatMap_singleton]
  all_goals rfl

theorem unbroken_of_isName {text : List Char} (named : isName text = true) : Unbroken text := by
  have parts := Query.all_isNamePart named
  rw [List.all_eq_true] at parts
  exact ⟨fun member => absurd (parts _ member) (by decide),
    fun member => absurd (parts _ member) (by decide)⟩

theorem unbroken_spelling {access : PropertyAccess} (formed : access.WellFormed) :
    Unbroken access.spelling.toList := by
  rw [PropertyAccess.spelling, String.toList_append, String.toList_append]
  exact ((unbroken_of_isName formed.owner.named).append (by decide)).append
    (unbroken_of_isName formed.property)

theorem unbroken_aggregate {aggregate : Aggregate} (formed : aggregate.WellFormed) :
    Unbroken aggregate.spelling.toList := by
  obtain ⟨function, distinct, argument⟩ := aggregate
  have named : Unbroken function.spelling.toList := by cases function <;> decide
  have marked : Unbroken (if distinct then "DISTINCT " else "").toList := by
    cases distinct <;> decide
  rw [Aggregate.spelling, String.toList_append, String.toList_append, String.toList_append]
  refine ((named.append (by decide)).append ?_).append (by decide)
  cases argument with
  | star =>
      show Unbroken "*".toList
      decide
  | property access =>
      rw [String.toList_append]
      exact marked.append (unbroken_spelling formed)
  | element identifier =>
      rw [String.toList_append]
      exact marked.append (unbroken_of_isName formed.named)

theorem unbroken_columnName {item : ReturnItem} (formed : item.WellFormed) :
    Unbroken item.columnName.toList := by
  obtain ⟨expression, columnAlias⟩ := item
  cases columnAlias with
  | some name => exact unbroken_of_isName (formed.columnAlias name rfl)
  | none =>
      have formed := formed.expression
      cases expression with
      | property access => exact unbroken_spelling formed
      | element identifier => exact unbroken_of_isName formed.named
      | aggregate aggregate => exact unbroken_aggregate formed

theorem toList_ofLines (lines : List String) :
    (ofLines lines).toList = (lines.map String.toList).flatMap (· ++ ['\n']) := by
  rw [ofLines, String.toList_join, List.flatMap_map, List.flatMap_map]
  simp only [String.toList_append]
  rfl

variable {texts : List String}

theorem splitOn_cells (unbroken : ∀ text ∈ texts, Unbroken text.toList) (nonempty : texts ≠ []) :
    Text.splitOn '\t' (cells texts).toList = texts.map String.toList :=
  Text.splitOn_toList_intercalate rfl (fun text member => (unbroken text member).1) nonempty

theorem not_mem_cells (unbroken : ∀ text ∈ texts, Unbroken text.toList) :
    '\n' ∉ (cells texts).toList := by
  rw [cells, String.toList_intercalate]
  induction texts with
  | nil => exact List.not_mem_nil
  | cons text rest ih =>
      have here := (unbroken text List.mem_cons_self).2
      cases rest with
      | nil => simpa using here
      | cons next others =>
          have later := ih fun other member => unbroken other (List.mem_cons_of_mem _ member)
          rw [List.map_cons, List.map_cons, List.intercalate_cons_cons, ← List.map_cons,
            List.mem_append, List.mem_append]
          simpa [here] using later

/-- The lines of a report, each cut at its tabs. -/
def fields (report : String) : List (List (List Char)) :=
  (Text.splitOn '\n' report.toList).dropLast.map (Text.splitOn '\t')

/-- Lines of unbroken texts are found in a report, and nothing behind the last line break. -/
theorem splitOn_ofLines {lines : List (List String)}
    (unbroken : ∀ texts ∈ lines, ∀ text ∈ texts, Unbroken text.toList) :
    Text.splitOn '\n' (ofLines (lines.map cells)).toList =
      lines.map (fun texts => (cells texts).toList) ++ [[]] := by
  rw [toList_ofLines, List.map_map]
  refine Text.splitOn_flatMap_ended (List.forall_mem_map.mpr fun texts member => ?_)
  exact not_mem_cells (unbroken texts member)

theorem fields_ofLines {lines : List (List String)}
    (unbroken : ∀ texts ∈ lines, ∀ text ∈ texts, Unbroken text.toList)
    (nonempty : ∀ texts ∈ lines, texts ≠ []) :
    fields (ofLines (lines.map cells)) = lines.map (List.map String.toList) := by
  rw [fields, splitOn_ofLines unbroken, List.dropLast_concat, List.map_map]
  exact List.map_congr_left fun texts member =>
    splitOn_cells (unbroken texts member) (nonempty texts member)

/-- The texts of the cells, column by column; a row that lacks a column has no text there. -/
def cellTexts (table : Table) : List (List (Option String)) :=
  table.rows.map fun row => table.columns.map fun column => (row.get? column).map Value.display

/-- The report has a line for the columns and one for each row, each with a field for each column.
The columns stand as they are, the texts of the cells escaped. -/
structure Shows (report : String) (table : Table) : Prop where
  ended : (Text.splitOn '\n' report.toList).getLast? = some []
  lines : (fields report).length = table.rows.length + 1
  width : ∀ line ∈ fields report, line.length = table.columns.length
  header : (fields report).head? = some (table.columns.map String.toList)
  cells : (fields report).tail.map (List.map fun field => some (String.ofList (unescape field))) =
    cellTexts table

theorem Shows.cellTexts_inj {report : String} {table other : Table} (first : Shows report table)
    (second : Shows report other) : table.columns = other.columns ∧
      cellTexts table = cellTexts other := by
  refine ⟨?_, first.cells.symm.trans second.cells⟩
  have same := Option.some.inj (first.header.symm.trans second.header)
  exact List.map_injective_iff.mpr (fun _ _ => String.toList_inj.mp) same

theorem Shows.ne_empty {report : String} {table : Table} (shown : Shows report table) :
    report ≠ "" := by
  rintro rfl
  have header := shown.header
  contradiction

def rowTexts (columns : List String) (row : Row) : List String :=
  columns.map fun column =>
    ((row.get? column).map fun value => escape value.display).getD ""

theorem unbroken_rowTexts (columns : List String) (row : Row) :
    ∀ text ∈ rowTexts columns row, Unbroken text.toList := by
  refine List.forall_mem_map.mpr fun column _ => ?_
  cases row.get? column with
  | none => exact ⟨List.not_mem_nil, List.not_mem_nil⟩
  | some value => exact unbroken_escape value.display

theorem get?_isSome {row : Row} {column : String} (filled : column ∈ row.map Prod.fst) :
    (row.get? column).isSome := by
  rw [Row.get?, Option.isSome_iff_ne_none, Ne, List.lookup_eq_none_iff]
  intro absent
  obtain ⟨cell, member, rfl⟩ := List.mem_map.mp filled
  exact absurd (absent cell member) (by simp)

theorem unescape_rowTexts {columns : List String} {row : Row}
    (filled : row.map Prod.fst = columns) :
    (rowTexts columns row).map (fun text => some (String.ofList (unescape text.toList))) =
      columns.map fun column => (row.get? column).map Value.display := by
  rw [rowTexts, List.map_map]
  refine List.map_congr_left fun column member => ?_
  obtain ⟨value, found⟩ := Option.isSome_iff_exists.mp (get?_isSome (filled ▸ member))
  rw [Function.comp, found, Option.map_some, Option.getD_some, unescape_escape,
    String.ofList_toList, Option.map_some]

/-- The report of a table with unbroken columns that its rows fill. -/
theorem shows_table {table : Table} (nonempty : table.columns ≠ [])
    (unbroken : ∀ column ∈ table.columns, Unbroken column.toList)
    (filled : ∀ row ∈ table.rows, row.map Prod.fst = table.columns) :
    Shows (Report.table table) table := by
  have lines : Report.table table =
      ofLines ((table.columns :: table.rows.map (rowTexts table.columns)).map Report.cells) := by
    rw [Report.table, if_neg (by simpa using nonempty), List.map_cons, List.map_map]
    rfl
  have unbroken : ∀ texts ∈ table.columns :: table.rows.map (rowTexts table.columns),
      ∀ text ∈ texts, Unbroken text.toList :=
    List.forall_mem_cons.mpr ⟨unbroken,
      List.forall_mem_map.mpr fun row _ => unbroken_rowTexts table.columns row⟩
  have width : ∀ texts ∈ table.columns :: table.rows.map (rowTexts table.columns),
      texts.length = table.columns.length :=
    List.forall_mem_cons.mpr ⟨rfl, List.forall_mem_map.mpr fun row _ => List.length_map _⟩
  have read := fields_ofLines unbroken fun texts member empty => nonempty <|
    List.length_eq_zero_iff.mp ((width texts member).symm.trans (empty ▸ rfl))
  rw [← lines] at read
  refine ⟨?_, ?_, ?_, ?_, ?_⟩
  · rw [lines, splitOn_ofLines unbroken, List.getLast?_concat]
  · rw [read, List.length_map, List.length_cons, List.length_map]
  · rw [read]
    exact List.forall_mem_map.mpr fun texts member => (List.length_map _).trans (width texts member)
  · rw [read]
    rfl
  · rw [read, List.map_cons, List.tail_cons, List.map_map, List.map_map, cellTexts]
    exact List.map_congr_left fun row member =>
      List.map_map.trans (unescape_rowTexts (filled row member))

theorem table_of_refused {table : Table} (refused : table.Refused) : Report.table table = "" := by
  rw [Report.table, refused.columns]
  rfl

end Report

namespace Query

variable {query : Query} {table : Table}

theorem WellFormed.shows (formed : query.WellFormed) (answers : table.Answers query.projection) :
    Report.Shows (Report.table table) table := by
  refine Report.shows_table ?_ ?_ answers.rows
  · obtain ⟨item, others, same⟩ := List.exists_cons_of_ne_nil formed.hasItem
    rw [answers.columns, same, List.map_cons, List.eraseDups_cons]
    exact List.cons_ne_nil _ _
  · intro column member
    rw [answers.columns, List.mem_eraseDups] at member
    obtain ⟨item, inside, rfl⟩ := List.mem_map.mp member
    exact Report.unbroken_columnName (formed.items item inside)

theorem WellFormed.refused_or_shows (formed : query.WellFormed) (graph : Snapshot)
    (maxDepth : Nat) :
    ∃ table, query.run graph maxDepth = .ok table ∧
      (table.Refused ∨ Report.Shows (Report.table table) table) := by
  have bound : query.BindsUses graph maxDepth := bindsUses_of_check formed.checked
  obtain ⟨table, ran, outcome⟩ := bound.refused_or_answers
  exact ⟨table, ran, outcome.imp_right formed.shows⟩

/-- The report of a refused query is empty.  Any other report shows its table: it can be cut at
its line breaks and tabs, and the escapes of a cell can be undone.  So tables with the same report
have the same columns and the same texts in their cells. -/
theorem run_shows {source : String} (prepared : prepare source = .ok query) (graph : Snapshot)
    (maxDepth : Nat) :
    ∃ table, query.run graph maxDepth = .ok table ∧
      (Report.table table = "" ↔ table.Refused) ∧
      (¬ table.Refused → Report.Shows (Report.table table) table) ∧
      ∀ source' query' graph' maxDepth' table', prepare source' = .ok query' →
        query'.run graph' maxDepth' = .ok table' → Report.table table' = Report.table table →
        table'.columns = table.columns ∧ Report.cellTexts table' = Report.cellTexts table := by
  obtain ⟨table, ran, outcome⟩ := (wellFormed_of_prepare prepared).refused_or_shows graph maxDepth
  refine ⟨table, ran, ⟨fun empty => ?_, Report.table_of_refused⟩, outcome.resolve_left, ?_⟩
  · exact outcome.resolve_right fun shown => shown.ne_empty empty
  intro source' query' graph' maxDepth' table' prepared' ran' same
  obtain ⟨_, ran'', outcome'⟩ :=
    (wellFormed_of_prepare prepared').refused_or_shows graph' maxDepth'
  obtain rfl := Except.ok.inj (ran''.symm.trans ran')
  rcases outcome with refused | shown <;> rcases outcome' with refused' | shown'
  · simp only [Report.cellTexts, refused.columns, refused'.columns, refused.rows, refused'.rows,
      and_self]
  · exact absurd (same.trans (Report.table_of_refused refused)) shown'.ne_empty
  · exact absurd (same.symm.trans (Report.table_of_refused refused')) shown.ne_empty
  · exact (same ▸ shown').cellTexts_inj shown

/-- Two nodes: a tab stands in the name of the first, a backslash before a letter in the other. -/
def tabAndBackslash : Snapshot :=
  Snapshot.ofLists
    [{ id := "a", properties := [("name", .string "x\ty")] },
      { id := "b", properties := [("name", .string "x\\ty")] }] []

/-- `MATCH (n) RETURN n.name` -/
def nodeNames : DocumentGraph.Query where
  patterns := [{
    start := {
      binder := some { name := "n", position := { offset := 7, line := 1, column := 8 } }
      position := { offset := 6, line := 1, column := 7 } }
    hops := [] }]
  condition := none
  projection := {
    distinct := false
    items := [{
      expression := .property {
        owner := { name := "n", position := { offset := 17, line := 1, column := 18 } }
        property := "name" } }] }

theorem run_shows_tabAndBackslash : prepare "MATCH (n) RETURN n.name" = .ok nodeNames ∧
    ∃ table, nodeNames.run tabAndBackslash 1 = .ok table ∧
      Report.table table = "n.name\nx\\ty\nx\\\\ty\n" ∧
      Report.Shows (Report.table table) table := by
  have prepared : prepare "MATCH (n) RETURN n.name" = .ok nodeNames := by decide +kernel
  obtain ⟨table, ran, empty, shown, _⟩ := run_shows prepared tabAndBackslash 1
  have reported : Report.table table = "n.name\nx\\ty\nx\\\\ty\n" := by
    obtain rfl := Except.ok.inj (Eq.trans (b := nodeNames.run tabAndBackslash 1) rfl ran)
    decide +kernel
  refine ⟨prepared, table, ran, reported, shown fun refused => ?_⟩
  rw [empty.mpr refused] at reported
  contradiction

end Query

end DocumentGraph
