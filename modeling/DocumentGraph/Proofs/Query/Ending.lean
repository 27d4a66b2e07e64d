import DocumentGraph.Proofs.Query.Blind
import DocumentGraph.Proofs.Query.Derivation
import DocumentGraph.Query.Prepare
import Mathlib.Data.List.TakeWhile

namespace DocumentGraph.Query

/-! Reading as far as the first end mark.

Every phrase of a query is blind for what stands behind an end mark, and each of its repetitions
ends by itself.  So it makes no difference whether the tokens behind the first end mark are cut
off, or whether the mark is there at all.
-/

namespace Parse

variable {α : Type} {marker other : Token} {size : Nat} {left right : List Token}

theorem blind_named? {kind : Kind} (inText : kind ≠ .endOfText) : Blind (named? kind) :=
  (blind_optionally inText fun _ => blind_pure _).blind

theorem blind_identifier (expected : String) : Blind (identifier expected) := by
  refine (blind_named? (by simp)).bind fun found => ?_
  cases found with
  | none => exact blind_reject expected
  | some found => exact blind_pure found

theorem blind_name (expected : String) : Blind (name expected) := by
  refine blind_peek (fun token inText => ?_) ?_
  · split
    · exact (blind_pure token.text).skip token
    · exact (blind_reject expected).at inText
  · intro first second atEnd alsoAtEnd _
    rw [atEnd, alsoAtEnd]
    exact ⟨rfl, blind_reject expected⟩

theorem blind_literal? : Blind literal? := by
  refine blind_peek (fun token inText => ?_) ?_
  · split
    · exact (blind_pure _).skip token
    · split
      · exact (blind_pure _).skip token
      · exact (blind_throw _).at inText
    · exact (blind_pure _).skip token
    · exact (blind_pure _).skip token
    · exact (blind_pure _).skip token
    · exact (blind_pure none).at inText
  · intro first second atEnd alsoAtEnd _
    rw [atEnd, alsoAtEnd]
    exact ⟨rfl, blind_pure none⟩

theorem blind_propertyAccess : Blind propertyAccess := by
  refine (blind_identifier _).bind fun owner => ?_
  refine (blind_expect (by simp)).bind fun _ => ?_
  exact (blind_name _).bind fun property => blind_pure _

theorem blind_reference (ofProperty : PropertyAccess → α) (ofVariable : Identifier → α) :
    Blind (reference ofProperty ofVariable) := by
  refine (blind_identifier _).bind fun owner => ?_
  refine (blind_accept (by simp)).bind fun dot => Blind.ite ?_ (blind_pure _)
  exact (blind_name _).bind fun property => blind_pure _

theorem blind_propertyPair : Blind propertyPair := by
  refine (blind_name _).bind fun key => (blind_expect (by simp)).bind fun _ => ?_
  refine blind_literal?.bind fun found => ?_
  cases found with
  | some value => exact blind_pure _
  | none =>
      exact blind_throwAt fun found position => .invalidLiteral
        ("property `" ++ key ++ "` must be a string, integer, boolean or null, found " ++ found)
        position

section Separated

variable {separator : Kind} {phrase : Parse α}

theorem blind_further (inText : separator ≠ .endOfText) (blind : Blind phrase) :
    BlindRound (optionally separator fun _ => phrase) :=
  blind_optionally inText fun _ => blind

theorem settles_further (inText : separator ≠ .endOfText) (blind : Blind phrase) :
    Settles (optionally separator fun _ => phrase)
      (do furtherUpTo separator phrase (← get).length) := by
  simp only [furtherUpTo_eq_roundsUpTo]
  exact (blind_further inText blind).settles

theorem blind_separated (inText : separator ≠ .endOfText) (blind : Blind phrase) :
    Blind (separated separator phrase) := by
  unfold separated
  simp only [furtherUpTo_eq_roundsUpTo]
  refine blind.bind fun first => ?_
  have others := (blind_further inText blind).blind_rounds.bind
    fun others => blind_pure (first, others)
  rwa [bind_assoc] at others

theorem blind_listed (inText : separator ≠ .endOfText) (blind : Blind phrase) :
    Blind (listed separator phrase) :=
  (blind_separated inText blind).bind fun _ => blind_pure _

end Separated

theorem blind_propertyMap : Blind propertyMap := by
  refine (blind_accept (by simp)).bind fun empty => (blind_pure []).ite ?_
  refine (blind_listed (by simp) blind_propertyPair).bind fun pairs => ?_
  exact (blind_expect (by simp)).bind fun _ => blind_pure pairs

theorem blind_nodePattern : Blind nodePattern := by
  refine blind_place (fun token => ?_) fun first second place => by simp only [place]
  refine (blind_expect (by simp)).bind fun _ => ?_
  refine (blind_named? (by simp)).bind fun binder => (blind_named? (by simp)).bind fun label => ?_
  refine (blind_optionally (by simp) fun _ => blind_propertyMap).blind.bind fun properties => ?_
  exact (blind_expect (by simp)).bind fun _ => blind_pure _

theorem blind_hopBound? : Blind hopBound? := by
  refine (blind_optionally (by simp) fun token => ?_).blind
  split
  · exact blind_pure _
  · exact blind_throw _

theorem blind_hopRange (star : Token) : Blind (hopRange star) := by
  refine blind_hopBound?.bind fun low => (blind_accept (by simp)).bind fun dots => ?_
  refine Blind.ite (blind_hopBound?.bind fun high => ?_) (blind_pure _)
  cases high with
  | none => exact blind_pure _
  | some high => exact (blind_throw _).ite (blind_pure _)

theorem blind_direction (leftward : Bool) : Blind (direction leftward) := by
  have accepts {mark : Symbol} : Blind (accept mark) := blind_accept (by simp)
  unfold direction
  refine Blind.ite ?_ ?_
  · exact accepts.bind fun _ => (blind_pure _).ite (blind_reject _)
  · refine accepts.bind fun _ => (blind_pure _).ite (accepts.bind fun _ => Blind.ite ?_ ?_)
    · exact accepts.bind fun _ => (blind_pure _).ite (blind_pure _)
    · exact blind_reject _

theorem blind_relationshipPattern (opening : Token) : Blind (relationshipPattern opening) := by
  refine (blind_expect (by simp)).bind fun _ => (blind_named? (by simp)).bind fun binder => ?_
  refine (blind_named? (by simp)).bind fun type => ?_
  refine (blind_optionally (by simp) blind_hopRange).blind.bind fun range => ?_
  refine (blind_expect (by simp)).bind fun _ => ?_
  exact (blind_direction _).bind fun direction => blind_pure _

/-- One hop of a pattern, if a dash or a left arrow is ahead. -/
def hop? : Parse (Option Hop) := do
  let opening ← peek
  if opening.kind = Symbol.dash ∨ opening.kind = Symbol.leftArrow then
    skip
    let relationship ← relationshipPattern opening
    let node ← nodePattern
    return some { relationship, node }
  else
    return none

theorem hopsUpTo_eq_roundsUpTo (bound : Nat) : hopsUpTo bound = roundsUpTo hop? bound := by
  induction bound with
  | zero => rfl
  | succ bound ih =>
      unfold hopsUpTo roundsUpTo
      rw [ih]
      generalize roundsUpTo hop? bound = others
      unfold hop?
      simp only [bind_assoc]
      refine congrArg _ (funext fun token => ?_)
      split
      · simp only [bind_assoc, pure_bind]
      · simp only [pure_bind]

theorem blind_hop? : BlindRound hop? := by
  intro marker other size left right alike
  unfold hop?
  rw [peek_bind, peek_bind, kind_headD_eq alike]
  split
  · rename_i sort
    cases alike with
    | ended first second place =>
        rw [second] at sort
        simp at sort
    | token inText behind =>
        have hop (opening : Token) := (blind_relationshipPattern opening).bind fun relationship =>
          blind_nodePattern.bind fun node =>
            blind_pure (some ({ relationship, node } : DocumentGraph.Query.Hop))
        exact .inr ⟨_, rfl, hop _ behind⟩
  · exact .inl ⟨rfl, rfl⟩

theorem settles_hops : Settles hop? (do hopsUpTo (← get).length) := by
  simp only [hopsUpTo_eq_roundsUpTo]
  exact blind_hop?.settles

theorem blind_pattern : Blind pattern := by
  unfold pattern
  simp only [hopsUpTo_eq_roundsUpTo]
  refine blind_nodePattern.bind fun start => ?_
  have hops := blind_hop?.blind_rounds.bind
    fun hops => blind_pure ({ start, hops } : DocumentGraph.Query.Pattern)
  rwa [bind_assoc] at hops

theorem blind_comparisonOperator : Blind comparisonOperator := by
  have joined (operator : ComparisonOperator) :
      Blind (expect Keyword.withWord >>= fun _ => pure operator) :=
    (blind_expect (by simp)).bind fun _ => blind_pure operator
  refine blind_peek (fun token inText => ?_) ?_
  · split
    case h_8 | h_9 => exact (joined _).skip token
    case h_10 => exact (blind_reject _).at inText
    all_goals exact (blind_pure _).skip token
  · intro first second atEnd alsoAtEnd _
    rw [atEnd, alsoAtEnd]
    exact ⟨rfl, blind_reject _⟩

/-- Not even the kind of the token after the next one tells two states apart. -/
theorem Alike.kindBehind_eq (alike : Alike marker other size left right)
    (inText : (right.headD other).kind ≠ .endOfText) :
    kindAhead left.tail = kindAhead right.tail := by
  cases alike with
  | ended first second place => exact absurd second inText
  | token _ behind => exact behind.kindAhead_eq

theorem blind_operand : Blind operand := by
  intro marker other size left right alike
  have dotted (tokens : List Token) : tokens[1]?.map Token.kind = some (.symbol .dot) ↔
      kindAhead tokens.tail = .symbol .dot := by
    rcases tokens with _ | ⟨_, _ | ⟨_, _⟩⟩ <;> simp
  have same (named : (right.headD other).kind = .identifier) :
      left[1]?.map Token.kind = some (.symbol .dot) ↔
        right[1]?.map Token.kind = some (.symbol .dot) := by
    rw [dotted, dotted, alike.kindBehind_eq (by rw [named]; simp)]
  unfold operand
  rw [get_bind, get_bind, peek_bind, peek_bind, kind_headD_eq alike]
  simp only [Bool.and_eq_true, decide_eq_true_eq, and_congr_right same]
  split
  · exact (blind_propertyAccess.bind fun access => blind_pure _) alike
  · refine (blind_literal?.bind fun found => ?_) alike
    cases found with
    | some value => exact blind_pure _
    | none => exact blind_reject _

theorem blind_predicate : Blind predicate := by
  refine blind_propertyAccess.bind fun left => (blind_accept (by simp)).bind fun is => ?_
  refine Blind.ite ?_ ?_
  · refine (blind_accept (by simp)).bind fun negated => ?_
    exact (blind_expect (by simp)).bind fun _ => blind_pure _
  · refine blind_comparisonOperator.bind fun operator => ?_
    exact blind_operand.bind fun right => blind_pure _

theorem blind_grouped {word : Keyword} {join : Condition → Condition → Condition}
    {phrase : Parse Condition} (blind : Blind phrase) : Blind (grouped word join phrase) :=
  (blind_separated (by simp) blind).bind fun _ => blind_pure _

theorem blind_term (allowance : Nat) : Blind (term allowance) := by
  induction allowance with
  | zero => exact blind_reject _
  | succ allowance ih =>
      refine (blind_accept (by simp)).bind fun negated => Blind.ite ?_ ?_
      · exact ih.bind fun inner => blind_pure _
      · refine (blind_accept (by simp)).bind fun opened => Blind.ite ?_ blind_predicate
        refine (blind_grouped (blind_grouped ih)).bind fun inner => ?_
        exact (blind_expect (by simp)).bind fun _ => blind_pure inner

theorem blind_aggregateArgument (function : AggregateFunction) (distinct : Bool) :
    Blind (aggregateArgument function distinct) := by
  refine Blind.bind ?_ fun star => (blind_pure _).ite (blind_reference _ _)
  exact (blind_accept (by simp)).ite (blind_pure _)

theorem blind_aggregate (function : AggregateFunction) : Blind (aggregate function) := by
  refine (blind_expect (by simp)).bind fun _ => (blind_accept (by simp)).bind fun distinct => ?_
  refine (blind_aggregateArgument function distinct).bind fun argument => ?_
  exact (blind_expect (by simp)).bind fun _ => blind_pure _

theorem blind_returnExpression : Blind returnExpression := by
  have applied (function : AggregateFunction) :
      Blind (aggregate function >>= fun value => pure (ReturnExpression.aggregate value)) :=
    (blind_aggregate function).bind fun value => blind_pure _
  refine blind_peek (fun token inText => ?_) ?_
  · split
    · exact (applied .count).skip token
    · exact (applied .collect).skip token
    · exact (blind_reference _ _).at inText
  · intro first second atEnd alsoAtEnd _
    rw [atEnd, alsoAtEnd]
    exact ⟨rfl, blind_reference _ _⟩

theorem blind_returnItem : Blind returnItem := by
  refine blind_returnExpression.bind fun expression => ?_
  refine (blind_accept (by simp)).bind fun named => Blind.ite ?_ (blind_pure _)
  exact (blind_name _).bind fun name => blind_pure _

theorem blind_projection : Blind projection := by
  refine (blind_accept (by simp)).bind fun distinct => ?_
  exact (blind_listed (by simp) blind_returnItem).bind fun items => blind_pure _

theorem blind_clause (word : Keyword) : Blind (clause word) := by
  refine (blind_accept (by simp)).bind fun found => (blind_pure ()).ite ?_
  exact blind_place (fun token => blind_throw _) fun first second place => by rw [place]

theorem blind_condition : Blind condition :=
  blind_grouped (blind_grouped (blind_term _))

theorem blind_query : Blind query := by
  refine (blind_clause _).bind fun _ => ?_
  refine (blind_listed (by simp) blind_pattern).bind fun patterns => ?_
  refine (blind_optionally (by simp) fun _ => blind_condition).blind.bind fun condition => ?_
  refine (blind_clause _).bind fun _ => blind_projection.bind fun projection => ?_
  refine blind_peek (fun token inText => ?_) ?_
  · exact ((blind_pure _).ite (blind_reject _)).at inText
  · intro first second atEnd alsoAtEnd _
    rw [if_pos atEnd, if_pos alsoAtEnd]
    exact ⟨rfl, blind_pure _⟩

/-- Every repetition of the reader ends by itself: at a token that opens no further round, or in
an error. -/
structure Terminating : Prop where
  pairs : Settles (optionally Symbol.comma fun _ => propertyPair)
    (do furtherUpTo Symbol.comma propertyPair (← get).length)
  hops : Settles hop? (do hopsUpTo (← get).length)
  patterns : Settles (optionally Symbol.comma fun _ => pattern)
    (do furtherUpTo Symbol.comma pattern (← get).length)
  terms : ∀ allowance, Settles (optionally Keyword.andWord fun _ => term allowance)
    (do furtherUpTo Keyword.andWord (term allowance) (← get).length)
  conjunctions : ∀ allowance,
    Settles (optionally Keyword.orWord fun _ => conjunction (term allowance))
      (do furtherUpTo Keyword.orWord (conjunction (term allowance)) (← get).length)
  items : Settles (optionally Symbol.comma fun _ => returnItem)
    (do furtherUpTo Symbol.comma returnItem (← get).length)

theorem terminating : Terminating where
  pairs := settles_further (by simp) blind_propertyPair
  hops := settles_hops
  patterns := settles_further (by simp) blind_pattern
  terms allowance := settles_further (by simp) (blind_term allowance)
  conjunctions allowance := settles_further (by simp) (blind_grouped (blind_term allowance))
  items := settles_further (by simp) blind_returnItem

end Parse

section TokenList

variable {tokens : List Token} {marker : Token}

theorem ofTokens_eq_map (tokens : List Token) :
    ofTokens tokens = (Parse.query (endMarker tokens) (tokensAhead tokens)).map Prod.fst := by
  unfold ofTokens
  cases Parse.query (endMarker tokens) (tokensAhead tokens) with
  | error reason => rfl
  | ok result => rfl

theorem endMarker_append (inText : ∀ token ∈ tokens, token.kind ≠ .endOfText)
    (ended : marker.kind = .endOfText) (rest : List Token) :
    endMarker (tokens ++ marker :: rest) = marker := by
  have found : (tokens ++ marker :: rest).find? (·.kind = .endOfText) = some marker := by
    rw [List.find?_append, List.find?_eq_none.mpr (by simpa using inText)]
    simp [ended]
  unfold endMarker
  rw [found]

theorem ofTokens_append (inText : ∀ token ∈ tokens, token.kind ≠ .endOfText)
    (ended : marker.kind = .endOfText) (rest : List Token) :
    ofTokens (tokens ++ marker :: rest) = (Parse.query marker tokens).map Prod.fst := by
  rw [ofTokens_eq_map, endMarker_append inText ended, tokensAhead_append inText ended]

theorem ofTokens_of_inText (inText : ∀ token ∈ tokens, token.kind ≠ .endOfText) :
    ofTokens tokens = (Parse.query
      (Token.endAt ((tokens.getLast?.map Token.position).getD {})) tokens).map Prod.fst := by
  have ahead : tokensAhead tokens = tokens :=
    List.takeWhile_eq_self_iff.mpr (by simpa using inText)
  have found : tokens.find? (·.kind = .endOfText) = none :=
    List.find?_eq_none.mpr (by simpa using inText)
  rw [ofTokens_eq_map, ahead, endMarker, found]

/-- The reader gives the same result when what stands behind the end mark is left in place. -/
theorem query_append (inText : ∀ token ∈ tokens, token.kind ≠ .endOfText)
    (ended : marker.kind = .endOfText) (rest : List Token) (other : Token) :
    (Parse.query other (tokens ++ marker :: rest)).map Prod.fst =
      (Parse.query marker tokens).map Prod.fst := by
  have ends : Parse.Alike other marker 0 (marker :: rest) [] := .ended ended ended rfl
  have alike := Parse.alike_append inText ends
  rw [List.append_nil] at alike
  exact (Parse.blind_query alike).map_fst

/-- Reading ends on any tokens.  Those behind the first end mark are never read, even when they are
put before the reader, and an end mark that is missing is replaced by one at the place of the last
token. -/
theorem parse_until_end (inText : ∀ token ∈ tokens, token.kind ≠ .endOfText)
    (ended : marker.kind = .endOfText) :
    Parse.Terminating ∧
    (∀ rest, parse (tokens ++ [marker] ++ rest) = parse (tokens ++ [marker]) ∧
      ∀ other, (Parse.query other (tokens ++ [marker] ++ rest)).map Prod.fst =
        ofTokens (tokens ++ [marker])) ∧
    (marker.position = (tokens.getLast?.map Token.position).getD {} →
      parse tokens = parse (tokens ++ [marker])) := by
  have cut (rest : List Token) :
      ofTokens (tokens ++ [marker] ++ rest) = ofTokens (tokens ++ [marker]) := by
    rw [List.append_assoc, List.singleton_append, ofTokens_append inText ended,
      ofTokens_append inText ended]
  refine ⟨Parse.terminating, fun rest => ⟨?_, fun other => ?_⟩, fun place => ?_⟩
  · unfold parse
    rw [cut rest]
  · rw [List.append_assoc, List.singleton_append, ofTokens_append inText ended]
    exact query_append inText ended rest other
  · have ends : Parse.Alike (Token.endAt marker.position) marker 0 [] [] := .ended rfl ended rfl
    have alike := Parse.alike_append inText ends
    rw [List.append_nil] at alike
    unfold parse
    rw [ofTokens_append inText ended, ofTokens_of_inText inText, ← place,
      (Parse.blind_query alike).map_fst]

/-- A query without an end mark. -/
def unmarkedQuery : List Token :=
  [{ kind := .keyword .matchWord, text := "match",
     position := { offset := 0, line := 1, column := 1 } },
    { kind := .symbol .leftParen, text := "(",
      position := { offset := 6, line := 1, column := 7 } },
    { kind := .identifier, text := "n", position := { offset := 7, line := 1, column := 8 } },
    { kind := .symbol .rightParen, text := ")",
      position := { offset := 8, line := 1, column := 9 } },
    { kind := .keyword .returnWord, text := "return",
      position := { offset := 10, line := 1, column := 11 } },
    { kind := .identifier, text := "n", position := { offset := 17, line := 1, column := 18 } }]

/-- The mark that stands in for the missing one; its text is not looked at. -/
def standIn : Token :=
  { kind := .endOfText, text := "n", position := { offset := 17, line := 1, column := 18 } }

theorem parse_until_end_unmarkedQuery :
    (parse unmarkedQuery).isOk = true ∧
    parse unmarkedQuery = parse (unmarkedQuery ++ [standIn]) ∧
    parse (unmarkedQuery ++ [standIn] ++ unmarkedQuery) = parse (unmarkedQuery ++ [standIn]) := by
  have inText : ∀ token ∈ unmarkedQuery, token.kind ≠ .endOfText := by decide
  have ended : standIn.kind = .endOfText := rfl
  obtain ⟨_, behind, missing⟩ := parse_until_end inText ended
  exact ⟨by decide +kernel, missing (by decide), (behind unmarkedQuery).1⟩

end TokenList

end DocumentGraph.Query
