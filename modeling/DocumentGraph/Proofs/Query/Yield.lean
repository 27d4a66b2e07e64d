import DocumentGraph.Proofs.Query.Site
import DocumentGraph.Proofs.Query.Spaced
import DocumentGraph.Proofs.Query.WellFormed

namespace DocumentGraph.Query

/-! Whatever is read from a scanned text is well-formed.

Tokens are settled when a scanner may have left them behind a token that is no dot.  Every
phrase takes settled tokens to settled tokens, and what it spells is well-formed; of labels and
types only the check knows whether they exist.
-/

/-- Tokens that may be scanned behind no dot. -/
def Settled (tokens : List Token) : Prop :=
  ∃ context : Context, context.last ≠ some (.symbol .dot) ∧
    context.Scans (tokens.map Token.word)

/-- What the phrase takes from settled tokens is good, and it leaves settled ones. -/
def Yields {α : Type} (phrase : List Token → α → Prop) (good : α → Prop) : Prop :=
  ∀ run rest value, phrase run value → Settled (run ++ rest) → good value ∧ Settled rest

section Tokens

variable {context : Context} {token : Token} {run rest : List Token}

theorem settled_of_scans (noDot : token.kind ≠ .symbol .dot)
    (scans : (context.follow token.kind).Scans (rest.map Token.word)) : Settled rest := by
  refine ⟨context.follow token.kind, ?_, scans⟩
  simpa [Context.last_follow] using noDot

theorem Settled.tail (settled : Settled (token :: rest)) (noDot : token.kind ≠ .symbol .dot) :
    Settled rest := by
  obtain ⟨context, _, _, scans⟩ := settled
  exact settled_of_scans noDot scans

theorem Spelled.isName {kind : Kind} {text slice : List Char} (spelled : Spelled kind text slice)
    (word : kind = .identifier ∨ ∃ reserved, kind = .keyword reserved) : isName text = true := by
  cases spelled with
  | identifier named => exact named
  | keyword reserved => exact isName_of_reserved reserved
  | _ => simp at word

theorem Spelled.isDigits {text slice : List Char} (spelled : Spelled .integer text slice) :
    Text.isDigits text = true := by
  cases spelled with
  | integer decimal => exact decimal

/-- A name may stand behind a dot as well. -/
theorem name_of_scans {name : String} (named : Grammar.Name run name)
    (scans : context.Scans ((run ++ rest).map Token.word)) :
    isName name.toList = true ∧ Settled rest := by
  cases named with
  | @identifier token sort =>
      obtain ⟨⟨spelled, _⟩, others⟩ := scans
      exact ⟨spelled.isName (.inl sort), settled_of_scans (by simp [sort]) others⟩
  | @keyword token word sort =>
      obtain ⟨⟨spelled, _⟩, others⟩ := scans
      exact ⟨spelled.isName (.inr ⟨word, sort⟩), settled_of_scans (by simp [sort]) others⟩

end Tokens

section Parts

variable {α : Type} {phrase : List Token → α → Prop} {good : α → Prop}

theorem yields_optional (yields : Yields phrase good) :
    Yields (Grammar.Optional phrase) fun value => ∀ present ∈ value, good present := by
  intro run rest value written settled
  cases written with
  | absent => exact ⟨by simp, settled⟩
  | present written =>
      obtain ⟨fine, left⟩ := yields _ _ _ written settled
      exact ⟨by simpa using fine, left⟩

theorem yields_flag (word : Keyword) : Yields (Grammar.Flag word) fun _ => True := by
  intro run rest flag written settled
  cases written with
  | absent => exact ⟨trivial, settled⟩
  | present sort => exact ⟨trivial, settled.tail (by simp [sort])⟩

theorem yields_further (yields : Yields phrase good) :
    Yields (Grammar.Further (.symbol .comma) phrase)
      fun values => ∀ value ∈ values, good value := by
  intro run rest values written
  induction written with
  | none => exact fun settled => ⟨by simp, settled⟩
  | more sort next others ih =>
      intro settled
      rw [List.cons_append, List.append_assoc] at settled
      obtain ⟨first, settled⟩ := yields _ _ _ next (settled.tail (by simp [sort]))
      obtain ⟨further, settled⟩ := ih settled
      exact ⟨List.forall_mem_cons.mpr ⟨first, further⟩, settled⟩

theorem yields_separated (yields : Yields phrase good) :
    Yields (Grammar.Separated (.symbol .comma) phrase)
      fun values => values ≠ [] ∧ ∀ value ∈ values, good value := by
  intro run rest values written settled
  cases written with
  | mk first others =>
      rw [List.append_assoc] at settled
      obtain ⟨begins, settled⟩ := yields _ _ _ first settled
      obtain ⟨further, settled⟩ := yields_further yields _ _ _ others settled
      exact ⟨⟨by simp, List.forall_mem_cons.mpr ⟨begins, further⟩⟩, settled⟩

end Parts

theorem yields_variable : Yields (Grammar.Named .identifier) IsVariable := by
  intro run rest identifier written settled
  cases written with
  | @mk token sort =>
      obtain ⟨context, noDot, ⟨spelled, suits⟩, scans⟩ := settled
      have reserved : context.last = some (.symbol .dot) ∨
          Keyword.ofWord? token.text.toList = none := by
        have suits : context.Suits token.text.toList token.kind := suits
        rwa [sort] at suits
      exact ⟨{ named := spelled.isName (.inl sort), free := reserved.resolve_left noDot },
        settled_of_scans (by simp [sort]) scans⟩

theorem yields_label : Yields (Grammar.Named .label) fun _ => True := by
  intro run rest label written settled
  cases written with
  | mk sort => exact ⟨trivial, settled.tail (by simp [sort])⟩

theorem yields_name : Yields Grammar.Name fun name => isName name.toList = true := by
  intro run rest name written settled
  obtain ⟨context, _, scans⟩ := settled
  exact name_of_scans written scans

theorem yields_literal : Yields Grammar.Literal Literal.WellFormed := by
  intro run rest value written settled
  cases written with
  | string sort => exact ⟨trivial, settled.tail (by simp [sort])⟩
  | @integer token value sort number =>
      refine ⟨?_, settled.tail (by simp [sort])⟩
      obtain ⟨_, _, ⟨spelled, _⟩, _⟩ := settled
      have spelled : Spelled token.kind token.text.toList _ := spelled
      rw [sort] at spelled
      exact number.nonneg spelled.isDigits
  | trueWord sort => exact ⟨trivial, settled.tail (by simp [sort])⟩
  | falseWord sort => exact ⟨trivial, settled.tail (by simp [sort])⟩
  | nullWord sort => exact ⟨trivial, settled.tail (by simp [sort])⟩

theorem yields_access : Yields Grammar.Access PropertyAccess.WellFormed := by
  intro run rest access written settled
  cases written with
  | @mk first second dot owner property owned mark named =>
      rw [List.append_assoc] at settled
      obtain ⟨owner, _, _, _, scans⟩ := yields_variable _ _ _ owned settled
      obtain ⟨property, settled⟩ := name_of_scans named scans
      exact ⟨{ owner, property }, settled⟩

theorem yields_pair : Yields Grammar.PropertyPair
    fun pair => isName pair.1.toList = true ∧ pair.2.WellFormed := by
  intro run rest pair written settled
  cases written with
  | mk named mark literal =>
      rw [List.append_assoc] at settled
      obtain ⟨key, settled⟩ := yields_name _ _ _ named settled
      obtain ⟨value, settled⟩ := yields_literal _ _ _ literal (settled.tail (by simp [mark]))
      exact ⟨⟨key, value⟩, settled⟩

theorem yields_map : Yields Grammar.PropertyMap
    fun pairs => ∀ pair ∈ pairs, isName pair.1.toList = true ∧ pair.2.WellFormed := by
  intro run rest pairs written settled
  cases written with
  | empty opened closed =>
      exact ⟨by simp, (settled.tail (by simp [opened])).tail (by simp [closed])⟩
  | pairs opened listed closed =>
      rw [List.cons_append, List.append_assoc] at settled
      obtain ⟨⟨_, all⟩, settled⟩ :=
        yields_separated yields_pair _ _ _ listed (settled.tail (by simp [opened]))
      exact ⟨all, settled.tail (by simp [closed])⟩

theorem yields_node : Yields Grammar.NodePattern
    fun pattern => (Site.node pattern).known = true → pattern.WellFormed := by
  intro run rest pattern written settled
  cases written with
  | mk opened bound labelled required closed =>
      simp only [List.cons_append, List.append_assoc] at settled
      obtain ⟨binder, settled⟩ :=
        yields_optional yields_variable _ _ _ bound (settled.tail (by simp [opened]))
      obtain ⟨_, settled⟩ := yields_optional yields_label _ _ _ labelled settled
      obtain ⟨properties, settled⟩ := yields_optional yields_map _ _ _ required settled
      refine ⟨fun known => ?_, settled.tail (by simp [closed])⟩
      exact { binder, label := (Option.all_eq_true _ _).mp known, properties }

theorem yields_bound : Yields Grammar.HopBound fun _ => True := by
  intro run rest bound written settled
  cases written with
  | mk sort number => exact ⟨trivial, settled.tail (by simp [sort])⟩

theorem yields_range : Yields Grammar.HopRange HopRange.WellFormed := by
  intro run rest range written settled
  cases written with
  | any starred => exact ⟨by simp [HopRange.WellFormed], settled.tail (by simp [starred])⟩
  | @exactly star run bound starred bounded =>
      obtain ⟨_, settled⟩ := yields_bound _ _ _ bounded (settled.tail (by simp [starred]))
      exact ⟨by simp [HopRange.WellFormed], settled⟩
  | atLeast starred below dotted =>
      rw [List.cons_append, List.append_assoc] at settled
      obtain ⟨_, settled⟩ :=
        yields_optional yields_bound _ _ _ below (settled.tail (by simp [starred]))
      exact ⟨by simp [HopRange.WellFormed], settled.tail (by simp [dotted])⟩
  | atMost starred dotted above =>
      obtain ⟨_, settled⟩ := yields_bound _ _ _ above
        ((settled.tail (by simp [starred])).tail (by simp [dotted]))
      exact ⟨by simp [HopRange.WellFormed], settled⟩
  | between starred below dotted above ordered =>
      rw [List.cons_append, List.append_assoc] at settled
      obtain ⟨_, settled⟩ := yields_bound _ _ _ below (settled.tail (by simp [starred]))
      obtain ⟨_, settled⟩ := yields_bound _ _ _ above (settled.tail (by simp [dotted]))
      exact ⟨by simpa [HopRange.WellFormed] using ordered, settled⟩

theorem ends_begin {opening : Token} {closing : List Token} {direction : Direction}
    (directed : Grammar.Ends opening closing direction) : opening.kind ≠ .symbol .dot := by
  cases directed with
  | forward dash arrow => simp [dash]
  | forwardApart dash shaft arrow => simp [dash]
  | either dash shaft => simp [dash]
  | backward arrow shaft => simp [arrow]

theorem settled_of_ends {opening : Token} {closing rest : List Token} {direction : Direction}
    (directed : Grammar.Ends opening closing direction) (settled : Settled (closing ++ rest)) :
    Settled rest := by
  cases directed with
  | forward dash arrow => exact settled.tail (by simp [arrow])
  | forwardApart dash shaft arrow =>
      exact (settled.tail (by simp [shaft])).tail (by simp [arrow])
  | either dash shaft => exact settled.tail (by simp [shaft])
  | backward arrow shaft => exact settled.tail (by simp [shaft])

theorem yields_relationship : Yields Grammar.RelationshipPattern
    fun pattern => (Site.relationship pattern).known = true → pattern.WellFormed := by
  intro run rest pattern written settled
  cases written with
  | mk opened bound typed ranged closed directed =>
      simp only [List.cons_append, List.append_assoc] at settled
      obtain ⟨binder, settled⟩ := yields_optional yields_variable _ _ _ bound
        ((settled.tail (ends_begin directed)).tail (by simp [opened]))
      obtain ⟨_, settled⟩ := yields_optional yields_label _ _ _ typed settled
      obtain ⟨range, settled⟩ := yields_optional yields_range _ _ _ ranged settled
      refine ⟨fun known => ?_, settled_of_ends directed (settled.tail (by simp [closed]))⟩
      exact { binder, type := (Option.all_eq_true _ _).mp known, range }

theorem yields_hops : Yields Grammar.Hops
    fun hops => (∀ site ∈ hops.flatMap Hop.sites, site.known = true) →
      ∀ hop ∈ hops, hop.relationship.WellFormed ∧ hop.node.WellFormed := by
  intro run rest hops written
  induction written with
  | none => exact fun settled => ⟨by simp, settled⟩
  | more joined reached others ih =>
      intro settled
      simp only [List.append_assoc] at settled
      obtain ⟨relationship, settled⟩ := yields_relationship _ _ _ joined settled
      obtain ⟨node, settled⟩ := yields_node _ _ _ reached settled
      obtain ⟨further, settled⟩ := ih settled
      refine ⟨fun known => ?_, settled⟩
      simp only [List.flatMap_cons, List.forall_mem_append, Hop.sites,
        List.forall_mem_cons] at known
      obtain ⟨⟨first, second, _⟩, known⟩ := known
      exact List.forall_mem_cons.mpr ⟨⟨relationship first, node second⟩, further known⟩

theorem yields_pattern : Yields Grammar.Pattern
    fun pattern => (∀ site ∈ pattern.sites, site.known = true) → pattern.WellFormed := by
  intro run rest pattern written settled
  cases written with
  | mk begun followed =>
      rw [List.append_assoc] at settled
      obtain ⟨start, settled⟩ := yields_node _ _ _ begun settled
      obtain ⟨hops, settled⟩ := yields_hops _ _ _ followed settled
      refine ⟨fun known => ?_, settled⟩
      obtain ⟨first, others⟩ := List.forall_mem_cons.mp known
      exact { start := start first, hops := hops others }

theorem yields_operator : Yields Grammar.Operator fun _ => True := by
  intro run rest operator written settled
  refine ⟨trivial, ?_⟩
  cases written with
  | startsWith sort joined => exact (settled.tail (by simp [sort])).tail (by simp [joined])
  | endsWith sort joined => exact (settled.tail (by simp [sort])).tail (by simp [joined])
  | _ => exact settled.tail (by simp [*])

theorem yields_operand : Yields Grammar.Operand Operand.WellFormed := by
  intro run rest operand written settled
  cases written with
  | property written => exact yields_access _ _ _ written settled
  | literal written => exact yields_literal _ _ _ written settled

/-- A comparison or a check nests nothing. -/
theorem yields_predicate : Yields Grammar.Predicate
    fun condition => condition.WellFormed ∧ ∀ level, condition.nesting level = 0 := by
  intro run rest condition written settled
  cases written with
  | comparison compared operated against =>
      simp only [List.append_assoc] at settled
      obtain ⟨left, settled⟩ := yields_access _ _ _ compared settled
      obtain ⟨_, settled⟩ := yields_operator _ _ _ operated settled
      obtain ⟨right, settled⟩ := yields_operand _ _ _ against settled
      exact ⟨⟨⟨left, right⟩, fun level => by rw [Condition.nesting]⟩, settled⟩
  | isNull checked asked missing =>
      rw [List.append_assoc] at settled
      obtain ⟨access, settled⟩ := yields_access _ _ _ checked settled
      refine ⟨⟨access, fun level => by rw [Condition.nesting]⟩, ?_⟩
      exact (settled.tail (by simp [asked])).tail (by simp [missing])
  | isNotNull checked asked negated missing =>
      rw [List.append_assoc] at settled
      obtain ⟨access, settled⟩ := yields_access _ _ _ checked settled
      refine ⟨⟨access, fun level => by rw [Condition.nesting]⟩, ?_⟩
      exact ((settled.tail (by simp [asked])).tail (by simp [negated])).tail (by simp [missing])

section Nesting

variable (condition : Condition)

theorem nesting_conjunction_le : condition.nesting .conjunction ≤ condition.nesting .term := by
  cases condition <;> simp [Condition.nesting, Grammar.Level.holdsAnd, Grammar.Level.holdsOr]

theorem nesting_disjunction_le :
    condition.nesting .disjunction ≤ condition.nesting .conjunction := by
  cases condition <;> simp [Condition.nesting, Grammar.Level.holdsAnd, Grammar.Level.holdsOr]

/-- One pair of parentheses is enough around a condition. -/
theorem nesting_term_le : condition.nesting .term ≤ condition.nesting .disjunction + 1 := by
  cases condition <;> simp [Condition.nesting, Grammar.Level.holdsAnd, Grammar.Level.holdsOr]

end Nesting

/-- A condition nests no deeper than it is written. -/
theorem yields_condition (level : Grammar.Level) (around : Nat) :
    Yields (Grammar.Condition level around) fun condition =>
      condition.WellFormed ∧ around + condition.nesting level < Grammar.nestingLimit := by
  intro run rest condition written
  -- Along the derivation `around` counts what is written, and `nesting` what is needed of it.
  induction written generalizing rest with
  | predicate shallow written =>
      intro settled
      obtain ⟨⟨formed, flat⟩, settled⟩ := yields_predicate _ _ _ written settled
      exact ⟨⟨formed, by rwa [flat]⟩, settled⟩
  | not sort negated ih =>
      intro settled
      obtain ⟨⟨formed, shallow⟩, settled⟩ := ih rest (settled.tail (by simp [sort]))
      refine ⟨⟨formed, ?_⟩, settled⟩
      rw [Condition.nesting]
      omega
  | @parentheses around left right run inner opened grouped closed ih =>
      intro settled
      rw [List.cons_append, List.append_assoc] at settled
      obtain ⟨⟨formed, shallow⟩, settled⟩ := ih _ (settled.tail (by simp [opened]))
      have enough := nesting_term_le inner
      exact ⟨⟨formed, by omega⟩, settled.tail (by simp [closed])⟩
  | @term around run condition single ih =>
      intro settled
      obtain ⟨⟨formed, shallow⟩, settled⟩ := ih rest settled
      have less := nesting_conjunction_le condition
      exact ⟨⟨formed, by omega⟩, settled⟩
  | @and around word first second left right before sort behind beforeIH behindIH =>
      intro settled
      rw [List.append_assoc] at settled
      obtain ⟨⟨leftFormed, leftShallow⟩, settled⟩ := beforeIH _ settled
      obtain ⟨⟨rightFormed, rightShallow⟩, settled⟩ :=
        behindIH _ (settled.tail (by simp [sort]))
      have bare : Condition.nesting .conjunction (.and left right) =
          max (left.nesting .conjunction) (right.nesting .term) := rfl
      exact ⟨⟨⟨leftFormed, rightFormed⟩, by omega⟩, settled⟩
  | @conjunction around run condition single ih =>
      intro settled
      obtain ⟨⟨formed, shallow⟩, settled⟩ := ih rest settled
      have less := nesting_disjunction_le condition
      exact ⟨⟨formed, by omega⟩, settled⟩
  | @or around word first second left right before sort behind beforeIH behindIH =>
      intro settled
      rw [List.append_assoc] at settled
      obtain ⟨⟨leftFormed, leftShallow⟩, settled⟩ := beforeIH _ settled
      obtain ⟨⟨rightFormed, rightShallow⟩, settled⟩ :=
        behindIH _ (settled.tail (by simp [sort]))
      have bare : Condition.nesting .disjunction (.or left right) =
          max (left.nesting .disjunction) (right.nesting .conjunction) := rfl
      exact ⟨⟨⟨leftFormed, rightFormed⟩, by omega⟩, settled⟩

theorem yields_filter : Yields Grammar.Filter fun condition =>
    condition.WellFormed ∧ condition.nesting .disjunction < Grammar.nestingLimit := by
  intro run rest condition written settled
  cases written with
  | mk sort written =>
      obtain ⟨⟨formed, shallow⟩, settled⟩ :=
        yields_condition _ _ _ _ _ written (settled.tail (by simp [sort]))
      rw [Nat.zero_add] at shallow
      exact ⟨⟨formed, shallow⟩, settled⟩

theorem yields_aggregate : Yields Grammar.Aggregate Aggregate.WellFormed := by
  intro run rest aggregate written settled
  cases written with
  | mk sort opened flagged applied closed =>
      simp only [List.cons_append, List.append_assoc] at settled
      obtain ⟨_, settled⟩ := yields_flag _ _ _ _ flagged
        ((settled.tail (by simp [sort])).tail (by simp [opened]))
      cases applied with
      | star starred =>
          exact ⟨⟨rfl, rfl⟩, (settled.tail (by simp [starred])).tail (by simp [closed])⟩
      | property written =>
          obtain ⟨access, settled⟩ := yields_access _ _ _ written settled
          exact ⟨access, settled.tail (by simp [closed])⟩
      | element written =>
          obtain ⟨identifier, settled⟩ := yields_variable _ _ _ written settled
          exact ⟨identifier, settled.tail (by simp [closed])⟩

theorem yields_expression : Yields Grammar.Expression ReturnExpression.WellFormed := by
  intro run rest expression written settled
  cases written with
  | property written => exact yields_access _ _ _ written settled
  | element written => exact yields_variable _ _ _ written settled
  | aggregate written => exact yields_aggregate _ _ _ written settled

theorem yields_item : Yields Grammar.Item ReturnItem.WellFormed := by
  intro run rest item written settled
  cases written with
  | plain written =>
      obtain ⟨expression, settled⟩ := yields_expression _ _ _ written settled
      exact ⟨{ expression, columnAlias := by simp }, settled⟩
  | named written sort named =>
      rw [List.append_assoc] at settled
      obtain ⟨expression, settled⟩ := yields_expression _ _ _ written settled
      obtain ⟨name, settled⟩ := yields_name _ _ _ named (settled.tail (by simp [sort]))
      exact ⟨{ expression, columnAlias := by simpa using name }, settled⟩

theorem yields_projection : Yields Grammar.Projection
    fun projection => projection.items ≠ [] ∧ ∀ item ∈ projection.items, item.WellFormed := by
  intro run rest projection written settled
  cases written with
  | mk flagged listed =>
      rw [List.append_assoc] at settled
      obtain ⟨_, settled⟩ := yields_flag _ _ _ _ flagged settled
      exact yields_separated yields_item _ _ _ listed settled

/-- A query that is read from a scanned text and passes the check is well-formed. -/
theorem yields_query :
    Yields Grammar.Reading fun query => query.check = .ok () → query.WellFormed := by
  intro run rest query written settled
  cases written with
  | mk opened matched filtered returned projected =>
      simp only [List.cons_append, List.append_assoc] at settled
      obtain ⟨⟨hasPattern, patterns⟩, settled⟩ :=
        yields_separated yields_pattern _ _ _ matched (settled.tail (by simp [opened]))
      obtain ⟨filter, settled⟩ := yields_optional yields_filter _ _ _ filtered settled
      obtain ⟨⟨hasItem, items⟩, settled⟩ :=
        yields_projection _ _ _ projected (settled.tail (by simp [returned]))
      refine ⟨fun checked => ?_, settled⟩
      have known := (check_iff_consistent.mp checked).1.known
      exact {
        hasPattern
        patterns := fun pattern member => patterns pattern member fun site inside =>
          known site (List.mem_flatMap.mpr ⟨pattern, member, inside⟩)
        condition := fun condition member => (filter condition member).1
        shallow := fun condition member => (filter condition member).2
        hasItem
        items
        checked }

end DocumentGraph.Query
