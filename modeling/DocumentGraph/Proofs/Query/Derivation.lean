import DocumentGraph.Proofs.Query.Condition
import DocumentGraph.Proofs.Query.Pattern
import Mathlib.Data.List.TakeWhile

namespace DocumentGraph.Query

/-! Reading whole queries.

The reader accepts the tokens in front of the first end marker exactly when the grammar
derives a query from them, and it returns that query.  So no tokens have two readings.
-/

namespace Parse

variable {marker : Token} {tokens rest run : List Token}

theorem reads_distinct {α : Type} {next : Bool → Parse α} {result : α}
    (ended : marker.kind = .endOfText)
    (read : (accept (.keyword .distinctWord) >>= next) marker tokens = .ok (result, rest)) :
    ∃ run behind distinct, tokens = run ++ behind ∧ Grammar.Flag .distinctWord run distinct ∧
      next distinct marker behind = .ok (result, rest) := by
  rcases accept_bind_cases ended (by simp) read with ⟨word, behind, rfl, sort, later⟩ | ⟨_, later⟩
  · exact ⟨[word], behind, true, rfl, .present sort, later⟩
  · exact ⟨[], tokens, false, rfl, .absent, later⟩

theorem accept_distinct {α : Type} {next : Bool → Parse α} {distinct : Bool}
    (ended : marker.kind = .endOfText) (written : Grammar.Flag .distinctWord run distinct)
    (other : kindAhead rest ≠ .keyword .distinctWord) :
    (accept (.keyword .distinctWord) >>= next) marker (run ++ rest) =
      next distinct marker rest := by
  cases written with
  | absent => exact accept_bind_of_ne ended other
  | present sort => exact accept_bind_of_kind sort

theorem kindAhead_referred {α : Type} {ofProperty : PropertyAccess → α}
    {ofVariable : Identifier → α} {value : α}
    (written : Referred ofProperty ofVariable run value) :
    kindAhead (run ++ rest) = .identifier := by
  cases written with
  | property written => exact kindAhead_access written
  | alone written => exact opens_named.kindAhead written

/-- Only a star is read in another way than elsewhere. -/
theorem aggregateArgument_of_ne (ended : marker.kind = .endOfText)
    (noStar : kindAhead tokens ≠ .symbol .asterisk) (function : AggregateFunction)
    (distinct : Bool) : aggregateArgument function distinct marker tokens =
      reference AggregateArgument.property .element marker tokens := by
  unfold aggregateArgument
  by_cases plain : (function = .count && !distinct) = true
  · rw [if_pos plain, accept_bind_of_ne ended noStar]
    rfl
  · rw [if_neg plain]
    rfl

theorem argument_of_referred {function : AggregateFunction} {distinct : Bool}
    {value : AggregateArgument} (written : Referred AggregateArgument.property .element run value) :
    Grammar.Argument function distinct run value := by
  cases written with
  | property written => exact .property written
  | alone written => exact .element written

theorem reads_aggregateArgument (function : AggregateFunction) (distinct : Bool) :
    Reads (aggregateArgument function distinct) (Grammar.Argument function distinct)
      (· ≠ .symbol .dot) where
  sound := by
    intro marker tokens value rest ended read
    unfold aggregateArgument at read
    by_cases plain : (function = .count && !distinct) = true
    · rw [if_pos plain] at read
      rcases accept_bind_cases ended (by simp) read with ⟨star, _, rfl, sort, later⟩ | ⟨_, later⟩
      · rw [if_pos rfl] at later
        obtain ⟨rfl, rfl⟩ := pure_eq_ok_iff.mp later
        simp only [Bool.and_eq_true, decide_eq_true_eq, Bool.not_eq_true'] at plain
        obtain ⟨rfl, rfl⟩ := plain
        exact ⟨[star], rfl, .star sort⟩
      · rw [if_neg (by simp)] at later
        obtain ⟨run, rfl, written⟩ := reads_reference.sound ended later
        exact ⟨run, rfl, argument_of_referred written⟩
    · rw [if_neg plain] at read
      change reference AggregateArgument.property .element marker tokens = _ at read
      obtain ⟨run, rfl, written⟩ := reads_reference.sound ended read
      exact ⟨run, rfl, argument_of_referred written⟩
  complete := by
    have other : ∀ {marker run value rest}, marker.kind = .endOfText →
        Referred AggregateArgument.property .element run value →
        kindAhead rest ≠ .symbol .dot →
        aggregateArgument function distinct marker (run ++ rest) = .ok (value, rest) := by
      intro marker run value rest ended written stops
      rw [aggregateArgument_of_ne ended (by rw [kindAhead_referred written]; simp)]
      exact reads_reference.complete ended written stops
    intro marker run value rest ended written stops
    cases written with
    | star sort =>
        unfold aggregateArgument
        rw [if_pos (by rfl), List.singleton_append, accept_bind_of_kind sort]
        rfl
    | property written => exact other ended (.property written) stops
    | element written => exact other ended (.alone written) stops

theorem kindAhead_argument_ne {function : AggregateFunction} {distinct : Bool}
    {value : AggregateArgument} (written : Grammar.Argument function distinct run value)
    (word : Keyword) : kindAhead (run ++ rest) ≠ .keyword word := by
  cases written with
  | star sort => simp [sort]
  | property written =>
      rw [kindAhead_access written]
      simp
  | element written =>
      rw [opens_named.kindAhead written]
      simp

theorem reads_aggregate {function : AggregateFunction} (word : Token)
    (sort : word.kind = .keyword (Grammar.functionWord function)) :
    Reads (aggregate function) (fun run value =>
      Grammar.Aggregate (word :: run) value ∧ value.function = function) always where
  sound := by
    intro marker tokens value rest ended read
    unfold aggregate at read
    obtain ⟨left, _, rfl, opened, read⟩ := expect_bind_cases ended (by simp) read
    obtain ⟨first, _, distinct, rfl, flagged, read⟩ := reads_distinct ended read
    obtain ⟨second, _, argument, rfl, applied, read⟩ :=
      (reads_aggregateArgument function distinct).bind_cases ended read
    obtain ⟨right, _, rfl, closed, last⟩ := expect_bind_cases ended (by simp) read
    obtain ⟨rfl, rfl⟩ := pure_eq_ok_iff.mp last
    exact ⟨left :: (first ++ (second ++ [right])), by simp,
      .mk sort opened flagged applied closed, rfl⟩
  complete := by
    intro marker run value rest ended both stops
    obtain ⟨written, rfl⟩ := both
    unfold aggregate
    cases written with
    | mk sort opened flagged applied closed =>
        rw [List.cons_append, expect_bind_of_kind opened, List.append_assoc,
          accept_distinct ended flagged ?_, List.append_assoc,
          (reads_aggregateArgument _ _).bind_of ended applied ?_, List.singleton_append,
          expect_bind_of_kind closed]
        · rfl
        · simp [closed]
        · rw [List.append_assoc]
          exact kindAhead_argument_ne applied _

theorem exists_of_aggregate {value : Aggregate} (written : Grammar.Aggregate run value) :
    ∃ word behind, run = word :: behind ∧
      word.kind = .keyword (Grammar.functionWord value.function) := by
  cases written with
  | mk sort opened flagged applied closed => exact ⟨_, _, rfl, sort⟩

theorem returnExpression_of_word {function : AggregateFunction} {word : Token}
    (sort : word.kind = .keyword (Grammar.functionWord function)) :
    returnExpression marker (word :: rest) =
      (aggregate function >>= fun value => pure (.aggregate value)) marker rest := by
  unfold returnExpression
  cases function with
  | count | collect =>
      rw [peek_bind, List.headD_cons, sort]
      rfl

theorem returnExpression_of_ne (ended : marker.kind = .endOfText)
    (noWord : ∀ function, kindAhead tokens ≠ .keyword (Grammar.functionWord function)) :
    returnExpression marker tokens =
      reference ReturnExpression.property .element marker tokens := by
  unfold returnExpression
  rw [peek_bind, kind_headD ended]
  cases ahead : kindAhead tokens with
  | keyword word =>
      cases word with
      | countWord => exact absurd ahead (noWord .count)
      | collectWord => exact absurd ahead (noWord .collect)
      | _ => rfl
  | _ => rfl

theorem reads_returnExpression :
    Reads returnExpression Grammar.Expression (· ≠ .symbol .dot) where
  sound := by
    intro marker tokens value rest ended read
    by_cases noWord : ∀ function, kindAhead tokens ≠ .keyword (Grammar.functionWord function)
    · rw [returnExpression_of_ne ended noWord] at read
      obtain ⟨run, rfl, written⟩ := reads_reference.sound ended read
      cases written with
      | property written => exact ⟨run, rfl, .property written⟩
      | alone written => exact ⟨run, rfl, .element written⟩
    · obtain ⟨function, sort⟩ := not_forall_not.mp noWord
      obtain ⟨word, behind, rfl, same⟩ := exists_of_kindAhead sort (by simp)
      rw [returnExpression_of_word same] at read
      obtain ⟨run, _, value, rfl, ⟨written, _⟩, last⟩ :=
        (reads_aggregate word same).bind_cases ended read
      obtain ⟨rfl, rfl⟩ := pure_eq_ok_iff.mp last
      exact ⟨word :: run, rfl, .aggregate written⟩
  complete := by
    have other : ∀ {marker run value rest}, marker.kind = .endOfText →
        Referred ReturnExpression.property .element run value →
        kindAhead rest ≠ .symbol .dot →
        returnExpression marker (run ++ rest) = .ok (value, rest) := by
      intro marker run value rest ended written stops
      rw [returnExpression_of_ne ended (by rw [kindAhead_referred written]; simp)]
      exact reads_reference.complete ended written stops
    intro marker run value rest ended written stops
    cases written with
    | property written => exact other ended (.property written) stops
    | element written => exact other ended (.alone written) stops
    | aggregate written =>
        obtain ⟨word, behind, rfl, sort⟩ := exists_of_aggregate written
        rw [List.cons_append, returnExpression_of_word sort,
          (reads_aggregate word sort).bind_of ended ⟨written, rfl⟩ trivial]
        rfl

theorem reads_returnItem : Reads returnItem Grammar.Item
    (fun kind => kind ≠ .keyword .asWord ∧ kind ≠ .symbol .dot) where
  sound := by
    intro marker tokens value rest ended read
    unfold returnItem at read
    obtain ⟨first, _, expression, rfl, written, read⟩ :=
      reads_returnExpression.bind_cases ended read
    rcases accept_bind_cases ended (by simp) read with ⟨word, _, rfl, sort, later⟩ | ⟨_, later⟩
    · rw [if_pos rfl] at later
      obtain ⟨second, _, name, rfl, named, last⟩ := (reads_name _).bind_cases ended later
      obtain ⟨rfl, rfl⟩ := pure_eq_ok_iff.mp last
      exact ⟨first ++ word :: second, by simp, .named written sort named⟩
    · obtain ⟨rfl, rfl⟩ := pure_eq_ok_iff.mp later
      exact ⟨first, rfl, .plain written⟩
  complete := by
    intro marker run value rest ended written stops
    unfold returnItem
    cases written with
    | plain written =>
        rw [reads_returnExpression.bind_of ended written stops.2, accept_bind_of_ne ended stops.1]
        rfl
    | named written sort named =>
        rw [List.append_assoc, reads_returnExpression.bind_of ended written (by simp [sort]),
          List.cons_append, accept_bind_of_kind sort, if_pos rfl,
          (reads_name _).bind_of ended named trivial]
        rfl

theorem kindAhead_expression_ne {value : ReturnExpression}
    (written : Grammar.Expression run value) :
    kindAhead (run ++ rest) ≠ .keyword .distinctWord := by
  cases written with
  | property written =>
      rw [kindAhead_access written]
      simp
  | element written =>
      rw [opens_named.kindAhead written]
      simp
  | @aggregate value written =>
      obtain ⟨word, behind, rfl, sort⟩ := exists_of_aggregate written
      rw [List.cons_append, kindAhead_cons, sort]
      cases value.function with
      | count | collect => nofun

/-- DISTINCT in front of a list of items belongs to the list. -/
theorem kindAhead_items_ne {items : List ReturnItem}
    (listed : Grammar.Separated (.symbol .comma) Grammar.Item run items) :
    kindAhead (run ++ rest) ≠ .keyword .distinctWord := by
  cases listed with
  | mk first others =>
      rw [List.append_assoc]
      cases first with
      | plain written => exact kindAhead_expression_ne written
      | named written sort named =>
          rw [List.append_assoc]
          exact kindAhead_expression_ne written

theorem reads_projection : Reads Parse.projection Grammar.Projection
    (fun kind => kind ≠ .symbol .comma ∧ kind ≠ .keyword .asWord ∧ kind ≠ .symbol .dot) where
  sound := by
    intro marker tokens value rest ended read
    unfold Parse.projection at read
    obtain ⟨first, _, distinct, rfl, flagged, read⟩ := reads_distinct ended read
    obtain ⟨second, _, items, rfl, listed, last⟩ :=
      (reads_listed reads_returnItem (by simp) (by simp)).bind_cases ended read
    obtain ⟨rfl, rfl⟩ := pure_eq_ok_iff.mp last
    exact ⟨first ++ second, by simp, .mk flagged listed⟩
  complete := by
    intro marker run value rest ended written stops
    unfold Parse.projection
    cases written with
    | mk flagged listed =>
        rw [List.append_assoc, accept_distinct ended flagged (kindAhead_items_ne listed),
          (reads_listed reads_returnItem (by simp) (by simp)).bind_of ended listed stops]
        rfl

theorem clause_bind_of_kind {α : Type} {next : Unit → Parse α} {word : Keyword} {token : Token}
    (sort : token.kind = .keyword word) :
    (clause word >>= next) marker (token :: rest) = next () marker rest := by
  refine bind_of_ok ?_
  unfold clause
  rw [accept_bind_of_kind sort]
  rfl

theorem clause_bind_cases {α : Type} {next : Unit → Parse α} {word : Keyword} {result : α}
    (ended : marker.kind = .endOfText)
    (read : (clause word >>= next) marker tokens = .ok (result, rest)) :
    ∃ token behind, tokens = token :: behind ∧ token.kind = .keyword word ∧
      next () marker behind = .ok (result, rest) := by
  obtain ⟨nothing, middle, first, later⟩ := bind_eq_ok read
  unfold clause at first
  rcases accept_bind_cases ended (by simp) first with
    ⟨token, behind, rfl, sort, taken⟩ | ⟨_, refused⟩
  · obtain ⟨rfl, rfl⟩ := pure_eq_ok_iff.mp taken
    exact ⟨token, behind, rfl, sort, later⟩
  · rw [if_neg (by simp), peek_bind] at refused
    exact absurd refused throw_ne_ok

theorem opens_filter : Opens (.keyword .whereWord) Grammar.Filter := by
  intro _ _ written
  obtain ⟨sort, written⟩ := written
  exact ⟨_, _, rfl, sort⟩

theorem reads_filter? :
    Reads (optionally (.keyword .whereWord) fun _ => Parse.condition)
      (Grammar.Optional Grammar.Filter)
      (fun kind => kind ≠ .keyword .whereWord ∧
        kind ≠ .keyword .orWord ∧ kind ≠ .keyword .andWord) := by
  refine reads_optionally (fun word sort => ?_) opens_filter (by simp)
  refine reads_condition.congr ⟨fun written => ?_, .mk sort⟩
  cases written with
  | mk sort written => exact written

theorem query_sound (ended : marker.kind = .endOfText) {query : DocumentGraph.Query}
    (read : Parse.query marker tokens = .ok (query, rest)) :
    ∃ run, tokens = run ++ rest ∧ Grammar.Reading run query ∧ kindAhead rest = .endOfText := by
  unfold Parse.query at read
  obtain ⟨opening, _, rfl, opened, read⟩ := clause_bind_cases ended read
  obtain ⟨first, _, patterns, rfl, matched, read⟩ :=
    (reads_listed reads_pattern (by simp) (by simp)).bind_cases ended read
  obtain ⟨second, _, condition, rfl, filtered, read⟩ := reads_filter?.bind_cases ended read
  obtain ⟨returning, _, rfl, returned, read⟩ := clause_bind_cases ended read
  obtain ⟨third, behind, projection, rfl, projected, last⟩ :=
    reads_projection.bind_cases ended read
  rw [peek_bind, kind_headD ended] at last
  by_cases finished : kindAhead behind = .endOfText
  · rw [if_pos finished] at last
    obtain ⟨rfl, rfl⟩ := pure_eq_ok_iff.mp last
    exact ⟨opening :: (first ++ (second ++ returning :: third)), by simp,
      .mk opened matched filtered returned projected, finished⟩
  · rw [if_neg finished] at last
    exact absurd last reject_ne_ok

theorem query_complete (ended : marker.kind = .endOfText) {query : DocumentGraph.Query}
    (reading : Grammar.Reading run query) (finished : kindAhead rest = .endOfText) :
    Parse.query marker (run ++ rest) = .ok (query, rest) := by
  unfold Parse.query
  cases reading with
  | mk opened matched filtered returned projected =>
      rw [List.cons_append, clause_bind_of_kind opened, List.append_assoc,
        (reads_listed reads_pattern (by simp) (by simp)).bind_of ended matched ?_,
        List.append_assoc, reads_filter?.bind_of ended filtered ?_, List.cons_append,
        clause_bind_of_kind returned, reads_projection.bind_of ended projected ?_,
        peek_bind, kind_headD ended, if_pos finished]
      · rfl
      · simp [finished]
      · simp [returned]
      · rw [List.append_assoc]
        refine ⟨?_, ?_, ?_⟩ <;>
          exact opens_filter.kindAhead_optional_ne filtered (by simp) (by simp [returned])

/-- A reading takes all tokens if none of them marks the end. -/
theorem query_eq_ok_iff (ended : marker.kind = .endOfText) {query : DocumentGraph.Query}
    (inText : ∀ token ∈ tokens, token.kind ≠ .endOfText) :
    Parse.query marker tokens = .ok (query, rest) ↔ Grammar.Reading tokens query ∧ rest = [] := by
  constructor
  · intro read
    obtain ⟨run, rfl, reading, finished⟩ := query_sound ended read
    cases rest with
    | nil => exact ⟨by rwa [List.append_nil], rfl⟩
    | cons token behind => exact absurd finished (inText token (by simp))
  · intro read
    obtain ⟨reading, rfl⟩ := read
    have read := query_complete ended reading kindAhead_nil
    rwa [List.append_nil] at read

end Parse

theorem kind_endMarker (tokens : List Token) : (endMarker tokens).kind = .endOfText := by
  unfold endMarker
  split
  · rename_i marker found
    simpa using List.find?_some found
  · rfl

theorem tokensAhead_append {tokens : List Token} {marker : Token}
    (inText : ∀ token ∈ tokens, token.kind ≠ .endOfText) (ended : marker.kind = .endOfText)
    (rest : List Token) : tokensAhead (tokens ++ marker :: rest) = tokens := by
  rw [tokensAhead, List.takeWhile_append_of_pos (by simpa using inText)]
  simp [ended]

theorem ofTokens_eq_ok_iff {tokens : List Token} {query : DocumentGraph.Query} :
    ofTokens tokens = .ok query ↔
      ∃ rest, Parse.query (endMarker tokens) (tokensAhead tokens) = .ok (query, rest) := by
  unfold ofTokens
  cases Parse.query (endMarker tokens) (tokensAhead tokens) with
  | error reason => simp
  | ok result =>
      obtain ⟨found, rest⟩ := result
      simp

/-- The tokens in front of the first end marker are read as the query that the grammar derives
from them, and as nothing if it derives none; it never derives two. -/
theorem ofTokens_reading :
    (∀ tokens query, ofTokens tokens = .ok query ↔
      Grammar.Reading (tokens.takeWhile (·.kind ≠ .endOfText)) query) ∧
    (∀ tokens left right, Grammar.Reading tokens left → Grammar.Reading tokens right →
      left = right) := by
  constructor
  · intro tokens query
    have inText : ∀ token ∈ tokensAhead tokens, token.kind ≠ .endOfText := by
      intro token member
      simpa using List.mem_takeWhile_imp member
    rw [ofTokens_eq_ok_iff]
    constructor
    · intro found
      obtain ⟨rest, read⟩ := found
      exact ((Parse.query_eq_ok_iff (kind_endMarker tokens) inText).mp read).1
    · intro reading
      exact ⟨[], (Parse.query_eq_ok_iff (kind_endMarker tokens) inText).mpr ⟨reading, rfl⟩⟩
  · intro tokens left right first second
    have ended : (Token.endAt {}).kind = .endOfText := rfl
    have read := Parse.query_complete ended first Parse.kindAhead_nil
    rw [Parse.query_complete ended second Parse.kindAhead_nil, Except.ok.injEq,
      Prod.mk.injEq] at read
    exact read.1.symm

end DocumentGraph.Query
