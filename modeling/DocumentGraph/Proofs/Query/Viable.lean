import DocumentGraph.Proofs.Query.Blame
import DocumentGraph.Proofs.Query.Ending
import DocumentGraph.Proofs.Query.Layout
import DocumentGraph.Proofs.Query.Spaced

namespace DocumentGraph.Query

/-! Errors at the first token that cannot be right.

For each phrase of a query, what stands in front of the place of an error can be completed to the
phrase.  So the tokens in front of a syntax error are always the beginning of some query.
-/

namespace Parse

variable {α : Type} {done : List Token}

theorem steers_named? {kind : Kind} (inText : kind ≠ .endOfText) :
    Steers (Grammar.Optional (Grammar.Named kind)) [] (named? kind) :=
  steers_optionally inText fun _ _ => blames_pure _

theorem viable_identifier : Viable (Grammar.Named .identifier) [] :=
  ⟨[sample .identifier], _, .mk rfl⟩

theorem steers_identifier (expected : String) :
    Steers (Grammar.Named .identifier) [] (identifier expected) := by
  refine (steers_named? (by simp)).bind (reads_named? (by simp)).isSound fun run found written => ?_
  cases written with
  | absent => exact steers_reject viable_identifier expected
  | present named => exact steers_pure (viable_of named) _

theorem steers_name (expected : String) : Steers Grammar.Name [] (name expected) := by
  have viable : Viable Grammar.Name [] := ⟨[sample .identifier], _, .identifier rfl⟩
  refine ⟨viable, blames_peek (fun token => ?_) fun token atEnd => ?_⟩
  · split
    · exact (blames_pure _).skip
    · exact (steers_reject viable expected).blames.at token
  · rw [atEnd]
    exact (steers_reject viable expected).blames

/-- A whole number out of range stands where the literal begins. -/
theorem blames_literal? {spelled : List Token → α → Prop} (viable : Viable spelled done) :
    Blames spelled done literal? := by
  refine blames_peek (fun token => ?_) fun token atEnd => ?_
  · split
    · exact (blames_pure _).skip
    · split
      · exact (blames_pure _).skip
      · intro marker tokens error ended failed
        obtain rfl := Except.error.inj failed
        exact .inr ⟨done, token :: tokens, rfl, rfl, viable⟩
    · exact (blames_pure _).skip
    · exact (blames_pure _).skip
    · exact (blames_pure _).skip
    · exact (blames_pure none).at token
  · rw [atEnd]
    exact blames_pure none

theorem steers_propertyAccess : Steers Grammar.Access [] propertyAccess := by
  refine (steers_identifier _).bind (reads_identifier _).isSound fun first owner owned => ?_
  refine steers_expect_bind (by simp) fun dot mark => ?_
  refine (steers_name _).bind (reads_name _).isSound fun second property named => ?_
  refine steers_pure ?_ _
  simpa using viable_of (Grammar.Access.mk owned mark named)

theorem steers_reference (ofProperty : PropertyAccess → α) (ofVariable : Identifier → α) :
    Steers (Referred ofProperty ofVariable) [] (reference ofProperty ofVariable) := by
  refine (steers_identifier _).bind (reads_identifier _).isSound fun first owner owned => ?_
  refine steers_accept_bind (by simp) (fun dot mark => ?_)
    (steers_pure (viable_of (.alone owned)) _)
  refine Steers.blames ?_
  refine (steers_name _).bind (reads_name _).isSound fun second property named => ?_
  refine steers_pure ?_ _
  have written : Referred ofProperty ofVariable (first ++ dot :: second) _ :=
    .property (.mk owned mark named)
  simpa using viable_of written

theorem steers_propertyPair : Steers Grammar.PropertyPair [] propertyPair := by
  refine (steers_name _).bind (reads_name _).isSound fun first key named => ?_
  refine steers_expect_bind (by simp) fun colon mark => ?_
  have literal : Grammar.Literal [sample .string] _ := .string rfl
  have whole : Viable Grammar.PropertyPair (([] ++ first ++ [colon]) ++ [sample .string]) := by
    simpa using viable_of (Grammar.PropertyPair.mk named mark literal)
  refine ⟨whole.front, (blames_literal? whole.front).bind_of ?_⟩
  intro marker tokens found rest ended read
  rcases literal?_cases ended read with ⟨value, token, rfl, rfl, _⟩ | ⟨rfl, rfl⟩
  · exact ⟨[token], rfl, blames_pure _⟩
  · refine ⟨[], rfl, ?_⟩
    rw [List.append_nil]
    exact (steers_throwAt _ whole.front fun _ => rfl).blames

theorem blames_propertyMap {left : Token} (opened : left.kind = .symbol .leftBrace) :
    Blames Grammar.PropertyMap [left] propertyMap := by
  refine blames_accept_bind (by simp) (fun right closed => blames_pure _) (Steers.blames ?_)
  refine (steers_listed (by simp) steers_propertyPair reads_propertyPair.isSound).bind
    reads_propertyPairs.isSound fun run pairs listed => ?_
  refine steers_expect_bind (by simp) fun right closed => steers_pure ?_ _
  simpa using viable_of (Grammar.PropertyMap.pairs opened listed closed)

theorem steers_properties : Steers (Grammar.Optional Grammar.PropertyMap) []
    (optionally (.symbol .leftBrace) fun _ => propertyMap) :=
  steers_optionally (by simp) fun _ opened => blames_propertyMap opened

theorem steers_nodePattern : Steers Grammar.NodePattern [] nodePattern := by
  refine steers_peek fun token => steers_expect_bind (by simp) fun left opened => ?_
  refine (steers_named? (by simp)).bind (reads_named? (by simp)).isSound
    fun first binder bound => ?_
  refine (steers_named? (by simp)).bind (reads_named? (by simp)).isSound
    fun second label labelled => ?_
  refine steers_properties.bind reads_properties.isSound fun third properties required => ?_
  refine steers_expect_bind (by simp) fun right closed => steers_pure ?_ _
  simpa using viable_of (Grammar.NodePattern.mk opened bound labelled required closed)

/-- A bound out of range stands where the bound begins. -/
theorem blames_hopBound? {spelled : List Token → α → Prop} (viable : Viable spelled done) :
    Blames spelled done hopBound? := by
  refine blames_peek (fun token => ?_) fun token atEnd => ?_
  · split
    · refine (Blames.map ?_ some).skip
      dsimp only
      split
      · exact blames_pure _
      · exact blames_throw viable rfl
    · exact (blames_pure none).at token
  · rw [if_neg (by simp [atEnd])]
    exact blames_pure none

theorem blames_hopRange {star : Token} (starred : star.kind = .symbol .asterisk) :
    Blames Grammar.HopRange [star] (hopRange star) := by
  have noBound : Viable Grammar.HopRange [] := ⟨[star], _, .any starred⟩
  refine (blames_hopBound? (viable_of (.any starred))).bind_of ?_
  intro marker tokens low rest ended read
  obtain ⟨first, rfl, below⟩ := reads_hopBound?.isSound ended read
  refine ⟨first, rfl, ?_⟩
  refine blames_accept_bind (by simp) (fun dots dotted => ?_) (blames_pure _)
  have viable : Viable Grammar.HopRange ([star] ++ first ++ [dots]) := by
    simpa using viable_of (Grammar.HopRange.atLeast starred below dotted)
  refine (blames_hopBound? viable).bind_of ?_
  intro marker tokens high rest ended read
  obtain ⟨second, rfl, above⟩ := reads_hopBound?.isSound ended read
  refine ⟨second, rfl, ?_⟩
  cases high with
  | none => exact blames_pure _
  | some high =>
      -- The bounds are in the wrong order, and the error stands at the star.
      have wrong : Blames Grammar.HopRange ([] ++ star :: (first ++ [dots] ++ second))
          (throw (.invalidRange (low.getD 0) high star.position) : Parse HopRange) :=
        blames_throw noBound rfl
      exact wrong.ite (blames_pure _)

theorem steers_hopRange? : Steers (Grammar.Optional Grammar.HopRange) []
    (optionally (.symbol .asterisk) hopRange) :=
  steers_optionally (by simp) fun _ starred => blames_hopRange starred

theorem steers_direction {opening : Token}
    (begins : opening.kind = .symbol .dash ∨ opening.kind = .symbol .leftArrow) :
    Steers (Grammar.Ends opening) [] (direction (opening.kind = .symbol .leftArrow)) := by
  unfold direction
  rcases begins with dash | arrow
  · rw [if_neg (by simp [dash])]
    have viable : Viable (Grammar.Ends opening) [] :=
      ⟨[sample (.symbol .dash)], _, .either dash rfl⟩
    refine steers_accept_bind (by simp) (fun last tip => blames_pure _) ?_
    refine steers_accept_bind (by simp) (fun last shaft => ?_) (steers_reject viable _)
    exact blames_accept_bind (by simp) (fun tip arrow => blames_pure _) (blames_pure _)
  · rw [if_pos (by simp [arrow])]
    have viable : Viable (Grammar.Ends opening) [] :=
      ⟨[sample (.symbol .dash)], _, .backward arrow rfl⟩
    exact steers_accept_bind (by simp) (fun last shaft => blames_pure _) (steers_reject viable _)

theorem steers_relationshipPattern {opening : Token}
    (begins : opening.kind = .symbol .dash ∨ opening.kind = .symbol .leftArrow) :
    Steers Grammar.RelationshipPattern [opening] (relationshipPattern opening) := by
  refine steers_expect_bind (by simp) fun left opened => ?_
  refine (steers_named? (by simp)).bind (reads_named? (by simp)).isSound
    fun first binder bound => ?_
  refine (steers_named? (by simp)).bind (reads_named? (by simp)).isSound
    fun second type typed => ?_
  refine steers_hopRange?.bind reads_hopRange?.isSound fun third range ranged => ?_
  refine steers_expect_bind (by simp) fun right closed => ?_
  have sound : Sound _ (Grammar.Ends opening) :=
    fun _ _ _ _ ended read => direction_sound begins ended read
  refine (steers_direction begins).bind sound fun closing direction directed => steers_pure ?_ _
  simpa using viable_of (Grammar.RelationshipPattern.mk opened bound typed ranged closed directed)

theorem steers_hops {spelled : List Token → α → Prop}
    (whole : ∀ ⦃run hops⦄, Grammar.Hops run hops → Viable spelled (done ++ run)) (bound : Nat) :
    Steers spelled done (hopsUpTo bound) := by
  refine ⟨(whole .none).front, ?_⟩
  induction bound generalizing done with
  | zero => exact blames_pure []
  | succ bound ih =>
      refine blames_peek (fun opening => ?_) fun opening atEnd => ?_
      · split
        · rename_i begins
          refine Blames.skip (Blames.bind_of ?_ ?_)
          · refine (steers_relationshipPattern begins).blames.lift fun run relationship joined => ?_
            obtain ⟨more, node, reached⟩ := steers_nodePattern.viable
            have viable := whole (.more joined reached .none)
            rw [← List.append_assoc] at viable
            exact viable.front
          · intro marker tokens relationship rest ended read
            obtain ⟨first, rfl, joined⟩ :=
              (reads_relationshipPattern opening begins).isSound ended read
            refine ⟨first, rfl, steers_nodePattern.blames.bind reads_nodePattern.isSound ?_⟩
            intro second node reached
            have longer : ∀ ⦃run hops⦄, Grammar.Hops run hops →
                Viable spelled (done ++ [opening] ++ first ++ second ++ run) := by
              intro run hops others
              simpa using whole (.more joined reached others)
            exact ⟨(longer .none).front, (ih longer).map _⟩
        · exact (blames_pure []).at opening
      · rw [if_neg (by simp [atEnd])]
        exact blames_pure []

theorem steers_pattern : Steers Grammar.Pattern [] pattern := by
  refine steers_nodePattern.bind reads_nodePattern.isSound fun first start begun => ?_
  refine steers_get fun ahead => ?_
  have whole : ∀ ⦃run hops⦄, Grammar.Hops run hops → Viable Grammar.Pattern (first ++ run) :=
    fun _ _ followed => viable_of (.mk begun followed)
  have hops := steers_hops whole ahead.length
  exact ⟨hops.viable, hops.blames.map _⟩

theorem steers_comparisonOperator : Steers Grammar.Operator [] comparisonOperator := by
  have viable : Viable Grammar.Operator [] := ⟨[sample (.symbol .equals)], _, .equals rfl⟩
  have joined {token : Token} {operator : ComparisonOperator}
      (written : ∀ word : Token, word.kind = .keyword .withWord →
        Grammar.Operator [token, word] operator) :
      Blames Grammar.Operator ([] ++ [token]) (do expect Keyword.withWord; return operator) :=
    (steers_expect_bind (by simp) fun word sort =>
      steers_pure (viable_of (written word sort)) operator).blames
  refine ⟨viable, blames_peek (fun token => ?_) fun token atEnd => ?_⟩
  · split
    case h_8 sort => exact (joined fun word same => .startsWith sort same).skip
    case h_9 sort => exact (joined fun word same => .endsWith sort same).skip
    case h_10 => exact (steers_reject viable _).blames.at token
    all_goals exact (blames_pure _).skip
  · rw [atEnd]
    exact (steers_reject viable _).blames

theorem steers_operand : Steers Grammar.Operand [] operand := by
  have viable : Viable Grammar.Operand [] := ⟨[sample .string], _, .literal (.string rfl)⟩
  refine ⟨viable, (steers_get fun ahead => steers_peek fun token => ⟨viable, ?_⟩).blames⟩
  refine Blames.ite (Steers.blames ?_) ((blames_literal? viable).bind_of ?_)
  · refine steers_propertyAccess.bind reads_propertyAccess.isSound fun run access written => ?_
    exact steers_pure (viable_of (.property written)) _
  · intro marker tokens found rest ended read
    rcases literal?_cases ended read with ⟨value, token, rfl, rfl, _⟩ | ⟨rfl, rfl⟩
    · exact ⟨[token], rfl, blames_pure _⟩
    · exact ⟨[], rfl, (steers_reject viable _).blames⟩

theorem steers_predicate : Steers Grammar.Predicate [] predicate := by
  refine steers_propertyAccess.bind reads_propertyAccess.isSound fun first left owned => ?_
  refine steers_accept_bind (by simp) (fun is asked => ?_) ?_
  · refine blames_accept_bind (by simp) (fun no negated => Steers.blames ?_) (Steers.blames ?_)
    · refine steers_expect_bind (by simp) fun null missing => steers_pure ?_ _
      simpa using viable_of (Grammar.Predicate.isNotNull owned asked negated missing)
    · refine steers_expect_bind (by simp) fun null missing => steers_pure ?_ _
      simpa using viable_of (Grammar.Predicate.isNull owned asked missing)
  · refine steers_comparisonOperator.bind reads_operator.isSound fun second operator operated => ?_
    refine steers_operand.bind reads_operand.isSound fun third right against => steers_pure ?_ _
    simpa using viable_of (Grammar.Predicate.comparison owned operated against)

section Grouping

open Grammar (nestingLimit)

variable {around : Nat}

theorem blames_grouped {word : Keyword} {merge : Condition → Condition → Condition}
    {phrase : Parse Condition} {spelled : List Token → Condition → Prop}
    (blames : Blames spelled [] phrase) (sound : Sound phrase spelled) :
    Blames (Chain word merge spelled) [] (grouped word merge phrase) := by
  refine ((blames_separated (by simp) blames sound).map _).mono fun run values listed => ?_
  cases listed with
  | mk first others => exact viable_of ⟨_, _, .mk first others, rfl⟩

theorem blames_conjunction {phrase : Parse Condition}
    (blames : Blames (Grammar.Condition .term around) [] phrase)
    (sound : Sound phrase (Grammar.Condition .term around)) :
    Blames (Grammar.Condition .conjunction around) [] (conjunction phrase) :=
  (blames_grouped blames sound).mono fun _ _ chain => viable_of (conjunction_iff_chain.mpr chain)

theorem blames_disjunction {phrase : Parse Condition}
    (blames : Blames (Grammar.Condition .term around) [] phrase)
    (reads : Reads phrase (Grammar.Condition .term around) always) :
    Blames (Grammar.Condition .disjunction around) [] (disjunction phrase) :=
  (blames_grouped (blames_conjunction blames reads.isSound) (reads_conjunction reads).isSound).mono
    fun _ _ chain => viable_of (disjunction_iff_chain.mpr chain)

/-- Below the limit a comparison may follow.  At the limit every term is nested too deeply. -/
theorem blames_term {allowance : Nat} (depth : around + allowance = nestingLimit) :
    Blames (Grammar.Condition .term around) [] (term allowance) := by
  induction allowance generalizing around with
  | zero =>
      intro marker tokens error ended failed
      obtain rfl := Except.error.inj failed
      exact .inl ⟨_, _, rfl⟩
  | succ allowance ih =>
      have inside : around + 1 + allowance = nestingLimit := by omega
      refine blames_accept_bind (by simp) (fun word sort => ?_) ?_
      · refine (ih inside).bind (reads_term inside).isSound fun run inner negated => ?_
        exact steers_pure (viable_of (.not sort negated)) _
      refine blames_accept_bind (by simp) (fun left opened => ?_) ?_
      · refine (blames_disjunction (ih inside) (reads_term inside)).bind
          (reads_disjunction (reads_term inside)).isSound fun run inner grouped => ?_
        refine steers_expect_bind (by simp) fun right closed => steers_pure ?_ _
        simpa using viable_of (Grammar.Condition.parentheses opened grouped closed)
      · exact steers_predicate.blames.mono
          fun _ _ written => viable_of (.predicate (by omega) written)

theorem steers_filter? : Steers (Grammar.Optional Grammar.Filter) []
    (optionally (.keyword .whereWord) fun _ => condition) := by
  have depth : 0 + nestingAllowance = nestingLimit := rfl
  refine steers_optionally (by simp) fun word sort => ?_
  have inside : Blames Grammar.Filter ([word] ++ []) condition :=
    (blames_disjunction (blames_term depth) (reads_term depth)).lift
      fun _ _ written => viable_of (.mk sort written)
  exact inside

end Grouping

theorem steers_aggregateArgument (function : AggregateFunction) (distinct : Bool) :
    Steers (Grammar.Argument function distinct) [] (aggregateArgument function distinct) := by
  have other : Steers (Grammar.Argument function distinct) []
      (reference AggregateArgument.property .element) :=
    (steers_reference _ _).mono fun _ _ written => viable_of (argument_of_referred written)
  unfold aggregateArgument
  split
  · exact steers_accept_bind (by simp) (fun star sort => blames_pure _) other
  · exact other

theorem blames_aggregate {function : AggregateFunction} {word : Token}
    (sort : word.kind = .keyword (Grammar.functionWord function)) :
    Blames Grammar.Aggregate [word] (aggregate function) := by
  refine (steers_expect_bind (by simp) fun left opened => ?_).blames
  have behind {first : List Token} {distinct : Bool}
      (flagged : Grammar.Flag .distinctWord first distinct) :
      Steers Grammar.Aggregate ([word] ++ [left] ++ first) (do
        let argument ← aggregateArgument function distinct
        expect Symbol.rightParen
        return { function, distinct, argument } : Parse Aggregate) := by
    refine (steers_aggregateArgument function distinct).bind
      (reads_aggregateArgument function distinct).isSound fun second argument applied => ?_
    refine steers_expect_bind (by simp) fun right closed => steers_pure ?_ _
    simpa using viable_of (Grammar.Aggregate.mk sort opened flagged applied closed)
  exact steers_accept_bind (by simp) (fun token same => (behind (.present same)).blames)
    (behind .absent)

theorem steers_returnExpression : Steers Grammar.Expression [] returnExpression := by
  have viable : Viable Grammar.Expression [] := ⟨[sample .identifier], _, .element (.mk rfl)⟩
  have applied {function : AggregateFunction} {word : Token}
      (sort : word.kind = .keyword (Grammar.functionWord function)) :
      Blames Grammar.Expression ([] ++ [word])
        (aggregate function >>= fun value => pure (ReturnExpression.aggregate value)) :=
    ((blames_aggregate sort).mono fun _ _ written => viable_of (.aggregate written)).map _
  have referred : Steers Grammar.Expression []
      (reference ReturnExpression.property .element) := by
    refine (steers_reference _ _).mono fun run value written => ?_
    cases written with
    | property written => exact viable_of (.property written)
    | alone written => exact viable_of (.element written)
  refine ⟨viable, blames_peek (fun token => ?_) fun token atEnd => ?_⟩
  · split
    case h_1 sort => exact (@applied .count token sort).skip
    case h_2 sort => exact (@applied .collect token sort).skip
    case h_3 => exact referred.blames.at token
  · rw [atEnd]
    exact referred.blames

theorem steers_returnItem : Steers Grammar.Item [] returnItem := by
  refine steers_returnExpression.bind reads_returnExpression.isSound
    fun first expression written => ?_
  refine steers_accept_bind (by simp) (fun word sort => Steers.blames ?_)
    (steers_pure (viable_of (.plain written)) _)
  refine (steers_name _).bind (reads_name _).isSound fun second name named => steers_pure ?_ _
  simpa using viable_of (Grammar.Item.named written sort named)

theorem steers_projection : Steers Grammar.Projection [] projection := by
  have behind {first : List Token} {distinct : Bool}
      (flagged : Grammar.Flag .distinctWord first distinct) :
      Steers Grammar.Projection ([] ++ first) (do
        return { distinct, items := ← listed Symbol.comma returnItem } : Parse Projection) := by
    refine (steers_listed (by simp) steers_returnItem reads_returnItem.isSound).bind
      (reads_listed reads_returnItem (by simp) (by simp)).isSound fun second items listed => ?_
    exact steers_pure (viable_of (.mk flagged listed)) _
  exact steers_accept_bind (by simp) (fun token same => (behind (.present same)).blames)
    (behind .absent)

theorem steers_clause_bind {spelled : List Token → α → Prop} {word : Keyword}
    {later : Unit → Parse α} (taken : ∀ token, token.kind = .keyword word →
      Steers spelled (done ++ [token]) (later ())) :
    Steers spelled done (clause word >>= later) := by
  refine steers_unless_bind (by simp) (fun viable => ?_) taken
  exact (steers_throwAt (fun found => .missingClause word.spelling found.position)
    viable fun _ => rfl).blames

theorem steers_query : Steers Grammar.Reading [] query := by
  refine steers_clause_bind fun opening opened => ?_
  refine (steers_listed (by simp) steers_pattern reads_pattern.isSound).bind
    (reads_listed reads_pattern (by simp) (by simp)).isSound fun first patterns matched => ?_
  refine steers_filter?.bind reads_filter?.isSound fun second condition filtered => ?_
  refine steers_clause_bind fun returning returned => ?_
  refine steers_projection.bind reads_projection.isSound fun third projection projected => ?_
  have viable : Viable Grammar.Reading
      ([] ++ [opening] ++ first ++ second ++ [returning] ++ third) := by
    simpa using viable_of (Grammar.Reading.mk opened matched filtered returned projected)
  refine steers_peek fun token => ⟨viable, ?_⟩
  exact (blames_pure _).ite (steers_reject viable _).blames

end Parse

section TokenList

variable {tokens : List Token} {query : DocumentGraph.Query} {error : QueryError}

theorem ofTokens_of_reading (reading : Grammar.Reading tokens query) :
    ofTokens tokens = .ok query := by
  have read {marker : Token} (ended : marker.kind = .endOfText) :
      Parse.query marker tokens = .ok (query, []) := by
    simpa using Parse.query_complete ended reading Parse.kindAhead_nil
  cases found : tokens.find? (·.kind = .endOfText) with
  | none =>
      rw [ofTokens_of_inText (by simpa using List.find?_eq_none.mp found), read rfl]
      rfl
  | some mark =>
      obtain ⟨ended, front, rest, rfl, inText⟩ := List.find?_eq_some_iff_append.mp found
      have ended : mark.kind = .endOfText := by simpa using ended
      have inText : ∀ token ∈ front, token.kind ≠ .endOfText := by simpa using inText
      rw [ofTokens_append inText ended, ← query_append inText ended rest mark, read ended]
      rfl

theorem filter_before {front later : List Token} {token : Token}
    (increasing : (front ++ token :: later).Pairwise fun left right =>
      left.position.offset < right.position.offset) :
    (front ++ token :: later).filter (·.position.offset < token.position.offset) = front := by
  obtain ⟨_, behind, across⟩ := List.pairwise_append.mp increasing
  have before : ∀ earlier ∈ front, earlier.position.offset < token.position.offset :=
    fun earlier member => across earlier member token List.mem_cons_self
  have after : ∀ other ∈ token :: later, ¬ other.position.offset < token.position.offset := by
    refine List.forall_mem_cons.mpr ⟨Nat.lt_irrefl _, fun other member => ?_⟩
    exact Nat.lt_asymm ((List.pairwise_cons.mp behind).1 other member)
  rw [List.filter_append, List.filter_eq_self.mpr (by simpa using before),
    List.filter_eq_nil_iff.mpr (by simpa using after), List.append_nil]

/-- Whatever is in front of the place of a syntax error is the beginning of a query. -/
theorem ofTokens_error_viable {source : String} (scanned : tokenize source = .ok tokens)
    (failed : ofTokens tokens = .error error) (shallow : ¬ error.TooDeep) :
    ∃ token ∈ tokens, error.location = some token.position ∧
      ∃ more query, ofTokens
        (tokens.filter (·.position.offset < token.position.offset) ++ more) = .ok query := by
  have layout : Layout [] source.toList tokens := layout_of_tokensFrom scanned
  have increasing := layout.increasing
  obtain ⟨text, marker, rfl, ended, scans⟩ := scans_of_tokensFrom scanned
  rw [ofTokens_append (kind_of_scans scans) ended] at failed
  cases outcome : Parse.query marker text with
  | ok result =>
      rw [outcome] at failed
      contradiction
  | error reason =>
      rw [outcome] at failed
      obtain rfl := Except.error.inj failed
      obtain deep | ⟨front, behind, split, place, more, query, reading⟩ :=
        Parse.steers_query.blames ended outcome
      · exact absurd deep shallow
      · obtain rfl : text = front ++ behind := split
        obtain ⟨later, ahead⟩ : ∃ later, behind ++ [marker] = behind.headD marker :: later := by
          cases behind with
          | nil => exact ⟨[], rfl⟩
          | cons token behind => exact ⟨behind ++ [marker], rfl⟩
        rw [List.append_assoc, ahead] at increasing ⊢
        refine ⟨behind.headD marker, by simp, place, more, query, ?_⟩
        rw [filter_before increasing]
        exact ofTokens_of_reading reading

/-- Bounds in the wrong order: the error stands at the star in front of them. -/
def crossedBounds : String := "MATCH (a)-[*5..3"

def crossedBoundsTokens : List Token :=
  [{ kind := .keyword .matchWord, text := "MATCH",
     position := { offset := 0, line := 1, column := 1 } },
    { kind := .symbol .leftParen, text := "(",
      position := { offset := 6, line := 1, column := 7 } },
    { kind := .identifier, text := "a", position := { offset := 7, line := 1, column := 8 } },
    { kind := .symbol .rightParen, text := ")",
      position := { offset := 8, line := 1, column := 9 } },
    { kind := .symbol .dash, text := "-", position := { offset := 9, line := 1, column := 10 } },
    { kind := .symbol .leftBracket, text := "[",
      position := { offset := 10, line := 1, column := 11 } },
    { kind := .symbol .asterisk, text := "*",
      position := { offset := 11, line := 1, column := 12 } },
    { kind := .integer, text := "5", position := { offset := 12, line := 1, column := 13 } },
    { kind := .symbol .dotDot, text := "..",
      position := { offset := 13, line := 1, column := 14 } },
    { kind := .integer, text := "3", position := { offset := 15, line := 1, column := 16 } },
    Token.endAt { offset := 16, line := 1, column := 17 }]

def crossedBoundsError : QueryError :=
  .invalidRange 5 3 { offset := 11, line := 1, column := 12 }

theorem ofTokens_error_viable_crossedBounds :
    tokenize crossedBounds = .ok crossedBoundsTokens ∧
    ofTokens crossedBoundsTokens = .error crossedBoundsError ∧ ¬ crossedBoundsError.TooDeep ∧
    ∃ more query, ofTokens (crossedBoundsTokens.take 6 ++ more) = .ok query := by
  have scanned : tokenize crossedBounds = .ok crossedBoundsTokens := by
    with_unfolding_all rfl
  have failed : ofTokens crossedBoundsTokens = .error crossedBoundsError := by
    with_unfolding_all rfl
  have shallow : ¬ crossedBoundsError.TooDeep := by
    rintro ⟨found, position, same⟩
    cases same
  obtain ⟨token, _, place, more, query, completed⟩ :=
    ofTokens_error_viable scanned failed shallow
  refine ⟨scanned, failed, shallow, more, query, ?_⟩
  rw [← Option.some.inj place] at completed
  exact completed

end TokenList

end DocumentGraph.Query
