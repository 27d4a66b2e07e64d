import DocumentGraph.Proofs.Query.Rendering
import DocumentGraph.Proofs.Query.Unplaced

namespace DocumentGraph.Query

/-! Tokens with the words of a query spell the query.

The places of the tokens become the places of what they spell, so every phrase is compared by a
view of it that forgets them.  A condition is spelled at the level for which it is rendered, and
inside fewer than `nestingLimit` negations and parentheses.
-/

/-- All tokens with these words spell a phrase that looks like the value. -/
def Spells {α β : Type} (phrase : List Token → α → Prop) (view : α → β) (words : List Word)
    (value : α) : Prop :=
  ∀ run, run.map Token.word = words → ∃ found, phrase run found ∧ view found = view value

theorem Spells.exactly {α : Type} {phrase : List Token → α → Prop} {words : List Word} {value : α}
    (spells : Spells phrase id words value) {run : List Token}
    (same : run.map Token.word = words) : phrase run value := by
  obtain ⟨found, written, alike⟩ := spells run same
  exact (show found = value from alike) ▸ written

theorem map_word_cons {run : List Token} {word : Word} {words : List Word}
    (same : run.map Token.word = word :: words) :
    ∃ token rest, run = token :: rest ∧ token.kind = word.kind ∧ token.text = word.text ∧
      rest.map Token.word = words := by
  obtain ⟨token, rest, rfl, rfl, others⟩ := List.map_eq_cons_iff.mp same
  exact ⟨token, rest, rfl, rfl, rfl, others⟩

theorem map_word_singleton {run : List Token} {word : Word} (same : run.map Token.word = [word]) :
    ∃ token, run = [token] ∧ token.kind = word.kind ∧ token.text = word.text := by
  obtain ⟨token, rest, rfl, kind, text, others⟩ := map_word_cons same
  obtain rfl := List.map_eq_nil_iff.mp others
  exact ⟨token, rfl, kind, text⟩

section Parts

variable {α β : Type} {phrase : List Token → α → Prop} {view : α → β} {words : α → List Word}

theorem spells_optional {value : Option α}
    (written : ∀ present ∈ value, Spells phrase view (words present) present) :
    Spells (Grammar.Optional phrase) (Option.map view) (optional words value) value := by
  intro run same
  cases value with
  | none =>
      obtain rfl := List.map_eq_nil_iff.mp same
      exact ⟨none, .absent, rfl⟩
  | some present =>
      obtain ⟨found, spelled, alike⟩ := written present rfl run same
      exact ⟨some found, .present spelled, congrArg some alike⟩

theorem spells_flagged (word : Keyword) (flag : Bool) :
    Spells (Grammar.Flag word) id (flagged word flag) flag := by
  intro run same
  cases flag with
  | false =>
      obtain rfl := List.map_eq_nil_iff.mp same
      exact ⟨false, .absent, rfl⟩
  | true =>
      obtain ⟨token, rfl, kind, _⟩ := map_word_singleton same
      exact ⟨true, .present kind, rfl⟩

theorem spells_further {values : List α}
    (written : ∀ value ∈ values, Spells phrase view (words value) value) :
    Spells (Grammar.Further (.symbol .comma) phrase) (List.map view)
      ((values.map words).flatMap (Word.symbol .comma :: ·)) values := by
  induction values with
  | nil =>
      intro run same
      obtain rfl := List.map_eq_nil_iff.mp same
      exact ⟨[], .none, rfl⟩
  | cons value values ih =>
      rw [List.forall_mem_cons] at written
      intro run same
      rw [List.map_cons, List.flatMap_cons] at same
      obtain ⟨front, rest, rfl, first, others⟩ := List.map_eq_append_iff.mp same
      obtain ⟨comma, run, rfl, kind, _, first⟩ := map_word_cons first
      obtain ⟨next, spelled, alike⟩ := written.1 run first
      obtain ⟨further, followed, all⟩ := ih written.2 rest others
      exact ⟨next :: further, .more kind spelled followed, by rw [List.map_cons, alike, all]; rfl⟩

theorem spells_separated {values : List α} (nonempty : values ≠ [])
    (written : ∀ value ∈ values, Spells phrase view (words value) value) :
    Spells (Grammar.Separated (.symbol .comma) phrase) (List.map view)
      (separated (values.map words)) values := by
  intro run same
  cases values with
  | nil => contradiction
  | cons value values =>
      rw [List.forall_mem_cons] at written
      obtain ⟨front, rest, rfl, first, others⟩ := List.map_eq_append_iff.mp same
      obtain ⟨found, spelled, alike⟩ := written.1 front first
      obtain ⟨further, followed, all⟩ := spells_further written.2 rest others
      exact ⟨found :: further, .mk spelled followed, by rw [List.map_cons, alike, all]; rfl⟩

end Parts

theorem spells_named (kind : Kind) (identifier : Identifier) :
    Spells (Grammar.Named kind) Identifier.unplaced [{ kind, text := identifier.name }]
      identifier := by
  intro run same
  obtain ⟨token, rfl, sort, text⟩ := map_word_singleton same
  refine ⟨_, .mk sort, ?_⟩
  simp only [Identifier.unplaced, text]

theorem spells_name (name : String) : Spells Grammar.Name id [.name name] name := by
  intro run same
  obtain ⟨token, rfl, kind, rfl⟩ := map_word_singleton same
  cases reserved : Keyword.ofWord? token.text.toList with
  | none => exact ⟨_, .identifier (by simpa [Word.name, reserved] using kind), rfl⟩
  | some word => exact ⟨_, .keyword (by simpa [Word.name, reserved] using kind), rfl⟩

theorem spells_literal {value : Literal} (formed : value.WellFormed) :
    Spells Grammar.Literal id [value.word] value := by
  intro run same
  obtain ⟨token, rfl, kind, text⟩ := map_word_singleton same
  cases value with
  | string value =>
      obtain rfl : token.text = value := text
      exact ⟨_, .string kind, rfl⟩
  | integer value =>
      have written : token.text = toString value.toInt.toNat := text
      have digits := Text.digits_toString value.toInt.toNat
      rw [← written] at digits
      have number : Text.SignedNumeral token.text.toList value.toInt := by
        rw [← Int.toNat_of_nonneg formed]
        exact .plain digits
      exact ⟨_, .integer kind number, rfl⟩
  | boolean value =>
      cases value with
      | true => exact ⟨_, .trueWord kind, rfl⟩
      | false => exact ⟨_, .falseWord kind, rfl⟩
  | null => exact ⟨_, .nullWord kind, rfl⟩

theorem spells_access (access : PropertyAccess) :
    Spells Grammar.Access PropertyAccess.unplaced access.words access := by
  intro run same
  obtain ⟨first, rest, rfl, owner, name, same⟩ := map_word_cons same
  obtain ⟨dot, rest, rfl, mark, _, same⟩ := map_word_cons same
  obtain ⟨second, rfl, property, text⟩ := map_word_singleton same
  have written : Grammar.Access ([first] ++ dot :: [second]) _ :=
    .mk (.mk owner) mark (.identifier property)
  refine ⟨_, written, ?_⟩
  have name : first.text = access.owner.name := name
  have text : second.text = access.property := text
  simp only [PropertyAccess.unplaced, Identifier.unplaced, name, text]

theorem spells_pair {pair : String × Literal} (formed : pair.2.WellFormed) :
    Spells Grammar.PropertyPair id (pairWords pair) pair := by
  intro run same
  obtain ⟨key, value⟩ := pair
  obtain ⟨first, others, rfl, named, same⟩ := List.map_eq_append_iff.mp
    (show run.map Token.word = [.name key] ++ [.symbol .colon, value.word] from same)
  obtain ⟨colon, second, rfl, mark, _, literal⟩ := map_word_cons same
  have key := (spells_name key).exactly named
  have value := (spells_literal formed).exactly literal
  exact ⟨_, .mk key mark value, rfl⟩

theorem spells_map {pairs : List (String × Literal)}
    (formed : ∀ pair ∈ pairs, pair.2.WellFormed) :
    Spells Grammar.PropertyMap id (mapWords pairs) pairs := by
  intro run same
  obtain ⟨left, rest, rfl, opened, _, same⟩ := map_word_cons same
  obtain ⟨run, last, rfl, listed, ended⟩ := List.map_eq_append_iff.mp same
  obtain ⟨right, rfl, closed, _⟩ := map_word_singleton ended
  cases pairs with
  | nil =>
      obtain rfl := List.map_eq_nil_iff.mp listed
      exact ⟨[], .empty opened closed, rfl⟩
  | cons pair pairs =>
      obtain ⟨found, separated, alike⟩ := spells_separated (List.cons_ne_nil pair pairs)
        (fun pair member => spells_pair (formed pair member)) run listed
      rw [List.map_id, List.map_id] at alike
      subst alike
      exact ⟨_, .pairs opened separated closed, rfl⟩

theorem spells_node {pattern : NodePattern} (formed : pattern.WellFormed) :
    Spells Grammar.NodePattern NodePattern.unplaced pattern.words pattern := by
  intro run same
  obtain ⟨left, rest, rfl, opened, _, same⟩ := map_word_cons same
  obtain ⟨first, rest, rfl, bound, same⟩ := List.map_eq_append_iff.mp same
  obtain ⟨second, rest, rfl, labelled, same⟩ := List.map_eq_append_iff.mp same
  obtain ⟨third, rest, rfl, required, same⟩ := List.map_eq_append_iff.mp same
  obtain ⟨right, rfl, closed, _⟩ := map_word_singleton same
  obtain ⟨binder, binds, sameBinder⟩ :=
    spells_optional (fun identifier _ => spells_named .identifier identifier) first bound
  obtain ⟨label, labels, sameLabel⟩ :=
    spells_optional (fun label _ => spells_named .label label) second labelled
  obtain ⟨properties, requires, sameProperties⟩ :=
    spells_optional (fun pairs written => spells_map fun pair member =>
      (formed.properties pairs written pair member).2) third required
  refine ⟨_, .mk opened binds labels requires closed, ?_⟩
  rw [Option.map_id, id, id] at sameProperties
  simp only [NodePattern.unplaced, sameBinder, sameLabel, sameProperties]

theorem spells_bound (bound : UInt32) :
    Spells Grammar.HopBound id [.number bound.toNat] bound := by
  intro run same
  obtain ⟨token, rfl, kind, text⟩ := map_word_singleton same
  have written : token.text = toString bound.toNat := text
  have digits := Text.digits_toString bound.toNat
  rw [← written] at digits
  exact ⟨bound, .mk kind (.plain digits), rfl⟩

theorem spells_range {range : HopRange} (formed : range.WellFormed) :
    Spells Grammar.HopRange id range.words range := by
  intro run same
  obtain ⟨low, high⟩ := range
  obtain ⟨star, rest, rfl, starred, _, same⟩ := map_word_cons same
  cases low with
  | none =>
      have unbounded : high = none := by
        by_contra bounded
        obtain ⟨high, rfl⟩ := Option.ne_none_iff_exists'.mp bounded
        obtain ⟨low, impossible, _⟩ := formed high rfl
        contradiction
      subst unbounded
      obtain rfl := List.map_eq_nil_iff.mp same
      exact ⟨_, .any starred, rfl⟩
  | some low =>
      cases high with
      | none =>
          obtain ⟨first, rest, rfl, lower, same⟩ := List.map_eq_append_iff.mp
            (show rest.map Token.word = [.number low.toNat] ++ [.symbol .dotDot] from same)
          have below := (spells_bound low).exactly lower
          obtain ⟨dots, rfl, dotted, _⟩ := map_word_singleton same
          exact ⟨_, .atLeast starred (.present below) dotted, rfl⟩
      | some high =>
          obtain ⟨first, rest, rfl, lower, same⟩ := List.map_eq_append_iff.mp
            (show rest.map Token.word = [.number low.toNat] ++
              [.symbol .dotDot, .number high.toNat] from same)
          obtain ⟨dots, second, rfl, dotted, _, upper⟩ := map_word_cons same
          have below := (spells_bound low).exactly lower
          have above := (spells_bound high).exactly upper
          obtain ⟨_, bounded, ordered⟩ := formed high rfl
          obtain rfl := Option.some.inj bounded
          exact ⟨_, .between starred below dotted above ordered, rfl⟩

theorem ends_of_direction {opening closing : Token} {direction : Direction}
    (first : opening.kind = .symbol direction.opening)
    (last : closing.kind = .symbol direction.closing) :
    Grammar.Ends opening [closing] direction := by
  cases direction with
  | forward => exact .forward first last
  | backward => exact .backward first last
  | either => exact .either first last

theorem spells_relationship {pattern : RelationshipPattern} (formed : pattern.WellFormed) :
    Spells Grammar.RelationshipPattern RelationshipPattern.unplaced pattern.words pattern := by
  intro run same
  obtain ⟨opening, rest, rfl, begins, _, same⟩ := map_word_cons same
  obtain ⟨left, rest, rfl, opened, _, same⟩ := map_word_cons same
  obtain ⟨first, rest, rfl, bound, same⟩ := List.map_eq_append_iff.mp same
  obtain ⟨second, rest, rfl, typed, same⟩ := List.map_eq_append_iff.mp same
  obtain ⟨third, rest, rfl, ranged, same⟩ := List.map_eq_append_iff.mp same
  obtain ⟨right, rest, rfl, closed, _, same⟩ := map_word_cons same
  obtain ⟨closing, rfl, ends, _⟩ := map_word_singleton same
  obtain ⟨binder, binds, sameBinder⟩ :=
    spells_optional (fun identifier _ => spells_named .identifier identifier) first bound
  obtain ⟨type, types, sameType⟩ :=
    spells_optional (fun type _ => spells_named .label type) second typed
  obtain ⟨range, ranges, sameRange⟩ :=
    spells_optional (fun range written => spells_range (formed.range range written)) third ranged
  refine ⟨_, .mk opened binds types ranges closed (ends_of_direction begins ends), ?_⟩
  rw [Option.map_id, id, id] at sameRange
  simp only [RelationshipPattern.unplaced, sameBinder, sameType, sameRange]

theorem spells_hops {hops : List Hop}
    (formed : ∀ hop ∈ hops, hop.relationship.WellFormed ∧ hop.node.WellFormed) :
    Spells Grammar.Hops (List.map Hop.unplaced) (hops.flatMap Hop.words) hops := by
  induction hops with
  | nil =>
      intro run same
      obtain rfl := List.map_eq_nil_iff.mp same
      exact ⟨[], .none, rfl⟩
  | cons hop hops ih =>
      intro run same
      rw [List.forall_mem_cons] at formed
      obtain ⟨⟨joined, reached⟩, others⟩ := formed
      rw [List.flatMap_cons, Hop.words, List.append_assoc] at same
      obtain ⟨first, rest, rfl, step, same⟩ := List.map_eq_append_iff.mp same
      obtain ⟨second, rest, rfl, arrival, same⟩ := List.map_eq_append_iff.mp same
      obtain ⟨relationship, joins, sameRelationship⟩ := spells_relationship joined first step
      obtain ⟨node, reaches, sameNode⟩ := spells_node reached second arrival
      obtain ⟨further, followed, all⟩ := ih others rest same
      refine ⟨{ relationship, node } :: further, .more joins reaches followed, ?_⟩
      rw [List.map_cons, List.map_cons, all, Hop.unplaced, sameRelationship, sameNode]
      rfl

theorem spells_pattern {pattern : Pattern} (formed : pattern.WellFormed) :
    Spells Grammar.Pattern Pattern.unplaced pattern.words pattern := by
  intro run same
  obtain ⟨first, rest, rfl, begun, followed⟩ := List.map_eq_append_iff.mp same
  obtain ⟨start, begins, sameStart⟩ := spells_node formed.start first begun
  obtain ⟨hops, follows, sameHops⟩ := spells_hops formed.hops rest followed
  refine ⟨{ start, hops }, .mk begins follows, ?_⟩
  rw [Pattern.unplaced, sameStart, sameHops]
  rfl

theorem spells_operator (operator : ComparisonOperator) :
    Spells Grammar.Operator id operator.words operator := by
  intro run same
  cases operator with
  | startsWith =>
      obtain ⟨first, rest, rfl, starts, _, same⟩ := map_word_cons same
      obtain ⟨second, rfl, joined, _⟩ := map_word_singleton same
      exact ⟨_, .startsWith starts joined, rfl⟩
  | endsWith =>
      obtain ⟨first, rest, rfl, ends, _, same⟩ := map_word_cons same
      obtain ⟨second, rfl, joined, _⟩ := map_word_singleton same
      exact ⟨_, .endsWith ends joined, rfl⟩
  | _ =>
      obtain ⟨token, rfl, kind, _⟩ := map_word_singleton same
      refine ⟨_, ?_, rfl⟩
      constructor
      exact kind

theorem spells_operand {operand : Operand} (formed : operand.WellFormed) :
    Spells Grammar.Operand Operand.unplaced operand.words operand := by
  intro run same
  cases operand with
  | property access =>
      obtain ⟨found, written, alike⟩ := spells_access access run same
      exact ⟨_, .property written, congrArg Operand.property alike⟩
  | literal value =>
      exact ⟨_, .literal ((spells_literal formed).exactly same), rfl⟩

theorem spells_comparison {left : PropertyAccess} {operator : ComparisonOperator}
    {right : Operand} (formed : right.WellFormed) :
    Spells Grammar.Predicate Condition.unplaced
      (left.words ++ (operator.words ++ right.words)) (.comparison left operator right) := by
  intro run same
  obtain ⟨first, rest, rfl, compared, same⟩ := List.map_eq_append_iff.mp same
  obtain ⟨second, third, rfl, operated, against⟩ := List.map_eq_append_iff.mp same
  obtain ⟨found, left, sameLeft⟩ := spells_access left first compared
  have operator := (spells_operator operator).exactly operated
  obtain ⟨operand, right, sameRight⟩ := spells_operand formed third against
  refine ⟨_, .comparison left operator right, ?_⟩
  rw [Condition.unplaced, sameLeft, sameRight]
  rfl

theorem spells_nullCheck (access : PropertyAccess) (negated : Bool) :
    Spells Grammar.Predicate Condition.unplaced
      (access.words ++ (.keyword .isWord :: (flagged .notWord negated ++ [.keyword .nullWord])))
      (.nullCheck access negated) := by
  intro run same
  obtain ⟨first, rest, rfl, checked, same⟩ := List.map_eq_append_iff.mp same
  obtain ⟨is, rest, rfl, asked, _, same⟩ := map_word_cons same
  obtain ⟨found, written, alike⟩ := spells_access access first checked
  cases negated with
  | false =>
      obtain ⟨null, rfl, missing, _⟩ := map_word_singleton same
      refine ⟨_, .isNull written asked missing, ?_⟩
      rw [Condition.unplaced, alike]
      rfl
  | true =>
      obtain ⟨not, rest, rfl, denied, _, same⟩ := map_word_cons same
      obtain ⟨null, rfl, missing, _⟩ := map_word_singleton same
      refine ⟨_, .isNotNull written asked denied missing, ?_⟩
      rw [Condition.unplaced, alike]
      rfl

theorem spells_parenthesised {around : Nat} {words : List Word} {condition : Condition}
    (inside : Spells (Grammar.Condition .disjunction (around + 1)) Condition.unplaced words
      condition) :
    Spells (Grammar.Condition .term around) Condition.unplaced (parenthesised words) condition := by
  intro run same
  obtain ⟨left, rest, rfl, opened, _, same⟩ := map_word_cons same
  obtain ⟨run, last, rfl, grouped, ended⟩ := List.map_eq_append_iff.mp same
  obtain ⟨right, rfl, closed, _⟩ := map_word_singleton ended
  obtain ⟨found, written, alike⟩ := inside run grouped
  exact ⟨found, .parentheses opened written closed, alike⟩

theorem spells_of_term {around : Nat} {words : List Word} {condition : Condition}
    (term : Spells (Grammar.Condition .term around) Condition.unplaced words condition)
    (level : Grammar.Level) :
    Spells (Grammar.Condition level around) Condition.unplaced words condition := by
  intro run same
  obtain ⟨found, written, alike⟩ := term run same
  cases level with
  | term => exact ⟨found, written, alike⟩
  | conjunction => exact ⟨found, .term written, alike⟩
  | disjunction => exact ⟨found, .conjunction (.term written), alike⟩

theorem spells_and {around : Nat} {first second : List Word} {left right : Condition}
    (before : Spells (Grammar.Condition .conjunction around) Condition.unplaced first left)
    (behind : Spells (Grammar.Condition .term around) Condition.unplaced second right) :
    Spells (Grammar.Condition .conjunction around) Condition.unplaced
      (first ++ .keyword .andWord :: second) (.and left right) := by
  intro run same
  obtain ⟨first, rest, rfl, one, same⟩ := List.map_eq_append_iff.mp same
  obtain ⟨word, second, rfl, sort, _, other⟩ := map_word_cons same
  obtain ⟨left, written, sameLeft⟩ := before first one
  obtain ⟨right, follows, sameRight⟩ := behind second other
  refine ⟨_, .and written sort follows, ?_⟩
  rw [Condition.unplaced, sameLeft, sameRight]
  rfl

theorem spells_or {around : Nat} {first second : List Word} {left right : Condition}
    (before : Spells (Grammar.Condition .disjunction around) Condition.unplaced first left)
    (behind : Spells (Grammar.Condition .conjunction around) Condition.unplaced second right) :
    Spells (Grammar.Condition .disjunction around) Condition.unplaced
      (first ++ .keyword .orWord :: second) (.or left right) := by
  intro run same
  obtain ⟨first, rest, rfl, one, same⟩ := List.map_eq_append_iff.mp same
  obtain ⟨word, second, rfl, sort, _, other⟩ := map_word_cons same
  obtain ⟨left, written, sameLeft⟩ := before first one
  obtain ⟨right, follows, sameRight⟩ := behind second other
  refine ⟨_, .or written sort follows, ?_⟩
  rw [Condition.unplaced, sameLeft, sameRight]
  rfl

theorem spells_of_conjunction {around : Nat} {words : List Word} {condition : Condition}
    (conjunction : Spells (Grammar.Condition .conjunction around) Condition.unplaced words
      condition) :
    Spells (Grammar.Condition .disjunction around) Condition.unplaced words condition := by
  intro run same
  obtain ⟨found, written, alike⟩ := conjunction run same
  exact ⟨found, .conjunction written, alike⟩

/-- A condition needs no parentheses but those that its rendering has. -/
theorem spells_condition {condition : Condition} (formed : condition.WellFormed)
    (level : Grammar.Level) (around : Nat)
    (shallow : around + condition.nesting level < Grammar.nestingLimit) :
    Spells (Grammar.Condition level around) Condition.unplaced (condition.words level)
      condition := by
  have deeper {around depth : Nat} (nested : around + (depth + 1) < Grammar.nestingLimit) :
      around + 1 + depth < Grammar.nestingLimit := by omega
  induction condition generalizing level around with
  | comparison left operator right =>
      refine spells_of_term (fun run same => ?_) level
      obtain ⟨found, written, alike⟩ := spells_comparison formed.2 run same
      exact ⟨found, .predicate shallow written, alike⟩
  | nullCheck access negated =>
      refine spells_of_term (fun run same => ?_) level
      obtain ⟨found, written, alike⟩ := spells_nullCheck access negated run same
      exact ⟨found, .predicate shallow written, alike⟩
  | not inner ih =>
      refine spells_of_term (fun run same => ?_) level
      obtain ⟨word, run, rfl, sort, _, same⟩ := map_word_cons same
      obtain ⟨found, written, alike⟩ := ih formed .term (around + 1) (deeper shallow) run same
      exact ⟨_, .not sort written, congrArg Condition.not alike⟩
  -- Without parentheses AND and OR are spelled at their own level; each level above lifts that,
  -- and each level below has one pair of parentheses more around it.
  | and left right leftIH rightIH =>
      have bare (around : Nat) (inside : around + max (left.nesting .conjunction)
          (right.nesting .term) < Grammar.nestingLimit) :=
        spells_and (leftIH formed.1 .conjunction around (by omega))
          (rightIH formed.2 .term around (by omega))
      cases level with
      | term =>
          have inside := bare (around + 1) (deeper shallow)
          exact spells_parenthesised (spells_of_conjunction inside)
      | conjunction => exact bare around shallow
      | disjunction => exact spells_of_conjunction (bare around shallow)
  | or left right leftIH rightIH =>
      have bare (around : Nat) (inside : around + max (left.nesting .disjunction)
          (right.nesting .conjunction) < Grammar.nestingLimit) :=
        spells_or (leftIH formed.1 .disjunction around (by omega))
          (rightIH formed.2 .conjunction around (by omega))
      cases level with
      | term => exact spells_parenthesised (bare (around + 1) (deeper shallow))
      | conjunction =>
          have inside := bare (around + 1) (deeper shallow)
          exact spells_of_term (spells_parenthesised inside) .conjunction
      | disjunction => exact bare around shallow

theorem spells_filter {condition : Condition} (formed : condition.WellFormed)
    (shallow : condition.nesting .disjunction < Grammar.nestingLimit) :
    Spells Grammar.Filter Condition.unplaced (filterWords condition) condition := by
  intro run same
  obtain ⟨word, run, rfl, sort, _, same⟩ := map_word_cons same
  rw [← Nat.zero_add (condition.nesting _)] at shallow
  obtain ⟨found, written, alike⟩ := spells_condition formed .disjunction 0 shallow run same
  exact ⟨found, .mk sort written, alike⟩

theorem spells_argument {aggregate : Aggregate} (formed : aggregate.WellFormed) :
    Spells (Grammar.Argument aggregate.function aggregate.distinct) AggregateArgument.unplaced
      aggregate.argument.words aggregate.argument := by
  intro run same
  obtain ⟨function, distinct, argument⟩ := aggregate
  cases argument with
  | star =>
      obtain ⟨rfl, rfl⟩ := formed
      obtain ⟨token, rfl, kind, _⟩ := map_word_singleton same
      exact ⟨_, .star kind, rfl⟩
  | property access =>
      obtain ⟨found, written, alike⟩ := spells_access access run same
      exact ⟨_, .property written, congrArg AggregateArgument.property alike⟩
  | element identifier =>
      obtain ⟨found, written, alike⟩ := spells_named .identifier identifier run same
      exact ⟨_, .element written, congrArg AggregateArgument.element alike⟩

theorem spells_aggregate {aggregate : Aggregate} (formed : aggregate.WellFormed) :
    Spells Grammar.Aggregate Aggregate.unplaced aggregate.words aggregate := by
  intro run same
  obtain ⟨word, rest, rfl, sort, _, same⟩ := map_word_cons same
  obtain ⟨left, rest, rfl, opened, _, same⟩ := map_word_cons same
  obtain ⟨first, rest, rfl, distinct, same⟩ := List.map_eq_append_iff.mp same
  obtain ⟨second, last, rfl, applied, ended⟩ := List.map_eq_append_iff.mp same
  obtain ⟨right, rfl, closed, _⟩ := map_word_singleton ended
  have flagged := (spells_flagged .distinctWord aggregate.distinct).exactly distinct
  obtain ⟨argument, written, alike⟩ := spells_argument formed second applied
  refine ⟨_, .mk sort opened flagged written closed, ?_⟩
  rw [Aggregate.unplaced, alike]
  rfl

theorem spells_expression {expression : ReturnExpression} (formed : expression.WellFormed) :
    Spells Grammar.Expression ReturnExpression.unplaced expression.words expression := by
  intro run same
  cases expression with
  | property access =>
      obtain ⟨found, written, alike⟩ := spells_access access run same
      exact ⟨_, .property written, congrArg ReturnExpression.property alike⟩
  | element identifier =>
      obtain ⟨found, written, alike⟩ := spells_named .identifier identifier run same
      exact ⟨_, .element written, congrArg ReturnExpression.element alike⟩
  | aggregate aggregate =>
      obtain ⟨found, written, alike⟩ := spells_aggregate formed run same
      exact ⟨_, .aggregate written, congrArg ReturnExpression.aggregate alike⟩

theorem spells_item {item : ReturnItem} (formed : item.WellFormed) :
    Spells Grammar.Item ReturnItem.unplaced item.words item := by
  intro run same
  obtain ⟨expression, columnAlias⟩ := item
  obtain ⟨first, rest, rfl, begun, same⟩ := List.map_eq_append_iff.mp same
  obtain ⟨found, written, alike⟩ := spells_expression formed.expression first begun
  cases columnAlias with
  | none =>
      obtain rfl := List.map_eq_nil_iff.mp same
      rw [List.append_nil]
      refine ⟨_, .plain written, ?_⟩
      rw [ReturnItem.unplaced, alike]
      rfl
  | some name =>
      obtain ⟨word, second, rfl, sort, _, same⟩ := map_word_cons same
      refine ⟨_, .named written sort ((spells_name name).exactly same), ?_⟩
      rw [ReturnItem.unplaced, alike]
      rfl

theorem spells_projection {projection : Projection} (nonempty : projection.items ≠ [])
    (formed : ∀ item ∈ projection.items, item.WellFormed) :
    Spells Grammar.Projection Projection.unplaced projection.words projection := by
  intro run same
  obtain ⟨first, second, rfl, distinct, listed⟩ := List.map_eq_append_iff.mp same
  have flagged := (spells_flagged .distinctWord projection.distinct).exactly distinct
  obtain ⟨items, written, alike⟩ := spells_separated nonempty
    (fun item member => spells_item (formed item member)) second listed
  refine ⟨_, .mk flagged written, ?_⟩
  rw [Projection.unplaced, alike]
  rfl

/-- Tokens with the words of a well-formed query are read as this query. -/
theorem spells_query {query : DocumentGraph.Query} (formed : query.WellFormed) :
    Spells Grammar.Reading unplaced query.words query := by
  intro run same
  obtain ⟨opening, rest, rfl, opened, _, same⟩ := map_word_cons same
  obtain ⟨first, rest, rfl, matched, same⟩ := List.map_eq_append_iff.mp same
  obtain ⟨second, rest, rfl, filtered, same⟩ := List.map_eq_append_iff.mp same
  obtain ⟨returning, third, rfl, returned, _, projected⟩ := map_word_cons same
  obtain ⟨patterns, matching, samePatterns⟩ := spells_separated formed.hasPattern
    (fun pattern member => spells_pattern (formed.patterns pattern member)) first matched
  obtain ⟨condition, filtering, sameCondition⟩ := spells_optional
    (fun condition written => spells_filter (formed.condition condition written)
      (formed.shallow condition written)) second filtered
  obtain ⟨projection, projecting, sameProjection⟩ :=
    spells_projection formed.hasItem formed.items third projected
  refine ⟨_, .mk opened matching filtering returned projecting, ?_⟩
  rw [unplaced, samePatterns, sameCondition, sameProjection]
  rfl

end DocumentGraph.Query
