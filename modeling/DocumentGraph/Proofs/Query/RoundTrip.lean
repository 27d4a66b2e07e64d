import DocumentGraph.Proofs.Query.Derivation
import DocumentGraph.Proofs.Query.Passage
import DocumentGraph.Proofs.Query.Spelling
import DocumentGraph.Proofs.Query.Yield
import DocumentGraph.Query.Prepare

namespace DocumentGraph.Query

/-! Queries and their texts.

Up to places, exactly the well-formed queries are read from texts, and every one of them is read
from its own rendering.
-/

theorem ofTokens_concat_eq_ok_iff {tokens : List Token} {marker : Token}
    {query : DocumentGraph.Query} (inText : ∀ token ∈ tokens, token.kind ≠ .endOfText)
    (ended : marker.kind = .endOfText) :
    ofTokens (tokens ++ [marker]) = .ok query ↔ Grammar.Reading tokens query := by
  rw [ofTokens_eq_ok_iff, tokensAhead_append inText ended]
  simp only [Parse.query_eq_ok_iff (kind_endMarker _) inText, exists_eq_right]

theorem bind_eq_ok_iff {α β : Type} {first : Except QueryError α}
    {next : α → Except QueryError β} {result : β} :
    (first >>= next) = .ok result ↔ ∃ value, first = .ok value ∧ next value = .ok result := by
  cases first with
  | error error => simp [bind, Except.bind]
  | ok value => simp [bind, Except.bind]

theorem prepare_eq_ok_iff {source : String} {query : DocumentGraph.Query} :
    prepare source = .ok query ↔ ∃ tokens, tokenize source = .ok tokens ∧
      ofTokens tokens = .ok query ∧ query.check = .ok () := by
  unfold prepare parse
  simp only [bind_eq_ok_iff]
  constructor
  · rintro ⟨tokens, scanned, found, read, _, checked, same⟩
    obtain rfl := Except.ok.inj same
    exact ⟨tokens, scanned, read, checked⟩
  · rintro ⟨tokens, scanned, read, checked⟩
    exact ⟨tokens, scanned, query, read, (), checked, rfl⟩

theorem prepare_render_of_wellFormed {query : DocumentGraph.Query} (formed : query.WellFormed) :
    ∃ read, prepare query.render = .ok read ∧ read.unplaced = query.unplaced := by
  obtain ⟨tokens, marker, scanned, ended, same⟩ :=
    tokensFrom_spaced (scans_words formed) Position.start
  obtain ⟨read, reading, alike⟩ := spells_query formed tokens same
  have scans : Context.Scans {} (tokens.map Token.word) := same ▸ scans_words formed
  refine ⟨read, prepare_eq_ok_iff.mpr ⟨tokens ++ [marker], ?_, ?_, ?_⟩, alike⟩
  · rw [tokenize, render, String.toList_ofList]
    exact scanned
  · exact (ofTokens_concat_eq_ok_iff (kind_of_scans scans) ended).mpr reading
  · rw [← check_unplaced, alike, check_unplaced]
    exact formed.checked

theorem wellFormed_of_prepare {source : String} {query : DocumentGraph.Query}
    (prepared : prepare source = .ok query) : query.WellFormed := by
  obtain ⟨all, scanned, read, checked⟩ := prepare_eq_ok_iff.mp prepared
  obtain ⟨tokens, marker, rfl, ended, scans⟩ := scans_of_tokensFrom scanned
  have reading := (ofTokens_concat_eq_ok_iff (kind_of_scans scans) ended).mp read
  have settled : Settled (tokens ++ []) := ⟨{}, by simp, by simpa using scans⟩
  exact (yields_query tokens [] query reading settled).1 checked

/-- A well-formed query is read from its own text.  Whatever is read is well-formed.  So, up to
places, exactly the well-formed queries are read from texts. -/
theorem prepare_render :
    (∀ query : DocumentGraph.Query, query.WellFormed →
      ∃ read, prepare query.render = .ok read ∧ read.unplaced = query.unplaced) ∧
    (∀ source query, prepare source = .ok query → query.WellFormed) ∧
    ∀ shape : DocumentGraph.Query,
      (∃ source read, prepare source = .ok read ∧ read.unplaced = shape) ↔
        ∃ query : DocumentGraph.Query, query.WellFormed ∧ query.unplaced = shape := by
  refine ⟨fun _ => prepare_render_of_wellFormed, fun _ _ => wellFormed_of_prepare,
    fun shape => ?_⟩
  constructor
  · rintro ⟨source, read, prepared, same⟩
    exact ⟨read, wellFormed_of_prepare prepared, same⟩
  · rintro ⟨query, formed, same⟩
    obtain ⟨read, prepared, alike⟩ := prepare_render_of_wellFormed formed
    exact ⟨query.render, read, prepared, alike.trans same⟩

/-- A quote inside a string, a reserved word behind a dot and one as an alias, and a negation
that needs parentheses. -/
def skillLinks : DocumentGraph.Query :=
  let skill : Identifier := { name := "a", position := {} }
  let target : Identifier := { name := "b", position := {} }
  { patterns := [{
      start := {
        binder := some skill
        label := some { name := "Skill", position := {} }
        properties := some [("kind", .string "\"x\"")] }
      hops := [{
        relationship := {
          type := some { name := "LINKS_TO", position := {} }
          direction := .forward
          range := some { min := some 1, max := some 3 } }
        node := { binder := some target } }] }]
    condition := some (.not (.or
      (.comparison { owner := skill, property := "match" } .equals (.literal (.integer 1)))
      (.nullCheck { owner := target, property := "name" } true)))
    projection := {
      distinct := false
      items := [
        { expression := .property { owner := skill, property := "name" }
          columnAlias := some "where" },
        { expression := .aggregate
            { function := .count, distinct := false, argument := .star } }] } }

theorem prepare_render_skillLinks : skillLinks.WellFormed ∧
    skillLinks.render =
      "MATCH ( a :Skill \x7b kind : \"\\\"x\\\"\" \x7d ) - [ :LINKS_TO * 1 .. 3 ] -> ( b ) " ++
      "WHERE NOT ( a . match = 1 OR b . name IS NOT NULL ) RETURN a . name AS where , COUNT ( * )" ∧
    ∃ read, prepare skillLinks.render = .ok read ∧ read.unplaced = skillLinks.unplaced := by
  have formed : skillLinks.WellFormed := by decide
  exact ⟨formed, by decide +kernel, prepare_render.1 skillLinks formed⟩

end DocumentGraph.Query
