import DocumentGraph.Proofs.Query.Rendering

namespace DocumentGraph.Query

/-! The words of a query can be scanned as they are meant.

What a word may stand behind depends on the open brackets and on the token before.  Every phrase
begins in a calm context, behind no dot, and leaves a calm one with as many open brackets; only
what follows a node or a relationship has to know that it stands there (`Behind`).
-/

/-- How many brackets of each sort are open. -/
def Context.depths (context : Context) : Nat × Nat × Nat :=
  (context.parens, context.brackets, context.braces)

/-- Inside the same brackets as the outer context, and not behind a dot. -/
structure Calm (outer context : Context) : Prop where
  depths : context.depths = outer.depths
  apart : context.last ≠ some (.symbol .dot)

/-- Inside the same brackets as the outer context, and behind a node or a relationship. -/
structure Behind (outer context : Context) : Prop where
  depths : context.depths = outer.depths
  closed : context.afterPattern = true

/-- Words that can be scanned in any context of one sort, and leave one of another. -/
def Passes (before : Context → Prop) (words : List Word) (behind : Context → Prop) : Prop :=
  ∀ context, before context → context.Scans words ∧ behind (context.after words)

section Contexts

variable {outer context : Context}

theorem depths_follow (same : context.depths = outer.depths) (kind : Kind) :
    (context.follow kind).depths = (outer.follow kind).depths := by
  simp only [Context.depths, Prod.mk.injEq] at same ⊢
  obtain ⟨parens, brackets, braces⟩ := same
  cases kind with
  | symbol mark => cases mark <;> simp [Context.follow, parens, brackets, braces]
  | _ => exact ⟨parens, brackets, braces⟩

theorem allowsLabel_of_depths (same : context.depths = outer.depths) :
    context.allowsLabel = outer.allowsLabel := by
  simp only [Context.depths, Prod.mk.injEq] at same
  obtain ⟨parens, brackets, braces⟩ := same
  rw [Context.allowsLabel, parens, brackets, braces, Context.allowsLabel]

/-- A token that is no dot leaves a calm context, inside the brackets that it leaves open. -/
theorem Calm.follow {inner : Context} (calm : Calm outer context) {kind : Kind}
    (noDot : kind ≠ .symbol .dot) (level : (outer.follow kind).depths = inner.depths) :
    Calm inner (context.follow kind) where
  depths := (depths_follow calm.depths kind).trans level
  apart := by simpa [Context.last_follow] using noDot

theorem Behind.calm (behind : Behind outer context) : Calm outer context where
  depths := behind.depths
  apart := by
    intro dot
    have closed := behind.closed
    rw [Context.afterPattern, dot] at closed
    contradiction

end Contexts

namespace Passes

variable {α : Type} {before middle behind : Context → Prop} {word : Word}
  {first second : List Word}

theorem nil : Passes before [] before :=
  fun _ start => ⟨trivial, start⟩

theorem append (left : Passes before first middle) (right : Passes middle second behind) :
    Passes before (first ++ second) behind := by
  intro context start
  obtain ⟨scans, between⟩ := left context start
  obtain ⟨later, reached⟩ := right _ between
  rw [Context.scans_append, Context.after_append]
  exact ⟨⟨scans, later⟩, reached⟩

theorem cons (left : Passes before [word] middle) (right : Passes middle second behind) :
    Passes before (word :: second) behind :=
  left.append right

theorem weaken {weaker : Context → Prop} (passes : Passes before first behind)
    (enough : ∀ context, behind context → weaker context) : Passes before first weaker :=
  fun context start => (passes context start).imp_right (enough _)

/-- The condition on a word is one on the context before it alone. -/
theorem single {slice : List Char} (spelled : Spelled word.kind word.text.toList slice)
    (suits : ∀ context, before context → context.Suits word.text.toList word.kind)
    (reached : ∀ context, before context → behind (context.follow word.kind)) :
    Passes before [word] behind :=
  fun context start => ⟨⟨⟨spelled.written, suits context start⟩, trivial⟩, reached context start⟩

theorem optional {words : α → List Word} {value : Option α}
    (written : ∀ present ∈ value, Passes before (words present) before) :
    Passes before (Query.optional words value) before := by
  cases value with
  | none => exact nil
  | some present => exact written present rfl

theorem flatMap {words : α → List Word} {values : List α}
    (written : ∀ value ∈ values, Passes before (words value) before) :
    Passes before (values.flatMap words) before := by
  induction values with
  | nil => exact nil
  | cons value values ih =>
      rw [List.flatMap_cons]
      rw [List.forall_mem_cons] at written
      exact written.1.append (ih written.2)

end Passes

section Words

variable {outer : Context}

/-- Words other than brackets leave the brackets as they are. -/
theorem passes_plain {word : Word} {slice : List Char}
    (spelled : Spelled word.kind word.text.toList slice)
    (suits : ∀ context, Calm outer context → context.Suits word.text.toList word.kind)
    (level : (outer.follow word.kind).depths = outer.depths) (noDot : word.kind ≠ .symbol .dot) :
    Passes (Calm outer) [word] (Calm outer) :=
  .single spelled suits fun _ calm => calm.follow noDot level

theorem passes_keyword (word : Keyword) :
    Passes (Calm outer) [.keyword word] (Calm outer) := by
  have reserved : Keyword.ofWord? word.spelling.toList = some word := by
    cases word <;> decide
  exact passes_plain (.keyword reserved) (fun _ calm => calm.apart) rfl (by simp [Word.keyword])

theorem passes_variable {identifier : Identifier} (plain : IsVariable identifier) :
    Passes (Calm outer) identifier.words (Calm outer) :=
  passes_plain (.identifier plain.named) (fun _ _ => .inr plain.free) rfl
    (by simp [Word.identifier])

theorem passes_name {name : String} (named : isName name.toList = true) :
    Passes (Calm outer) [.name name] (Calm outer) := by
  cases reserved : Keyword.ofWord? name.toList with
  | none =>
      have same : Word.name name = .identifier name := by
        simp [Word.name, Word.identifier, reserved]
      rw [same]
      exact passes_plain (.identifier named) (fun _ _ => .inr reserved) rfl
        (by simp [Word.identifier])
  | some word =>
      have same : Word.name name = { kind := .keyword word, text := name } := by
        simp [Word.name, reserved]
      rw [same]
      exact passes_plain (.keyword reserved) (fun _ calm => calm.apart) rfl (by simp)

theorem passes_label {label : Identifier} (named : isName label.name.toList = true)
    (allowed : outer.allowsLabel = true) :
    Passes (Calm outer) (labelWords label) (Calm outer) :=
  passes_plain (.label named) (fun _ calm => (allowsLabel_of_depths calm.depths).trans allowed) rfl
    (by simp [Word.label])

theorem passes_number (number : Nat) : Passes (Calm outer) [.number number] (Calm outer) :=
  passes_plain (.integer (Text.digits_toString number).isDigits) (fun _ _ => trivial) rfl
    (by simp [Word.number])

theorem passes_literal (value : Literal) : Passes (Calm outer) [value.word] (Calm outer) := by
  cases value with
  | string value =>
      exact passes_plain (.string (quoted_escaped _)) (fun _ _ => trivial) rfl
        (by simp [Literal.word, Word.string])
  | integer value => exact passes_number _
  | boolean value => cases value <;> exact passes_keyword _
  | null => exact passes_keyword _

/-- A symbol other than a dot and the arrows may stand in any calm context. -/
theorem passes_symbol {inner : Context} {mark : Symbol}
    (ordinary : mark ∉ [.dot, .rightArrow, .leftArrow])
    (level : (outer.follow (.symbol mark)).depths = inner.depths) :
    Passes (Calm outer) [.symbol mark] (Calm inner) := by
  have spelled : Spelled (.symbol mark) mark.spelling.toList mark.spelling.toList := .symbol
  simp only [List.mem_cons, List.not_mem_nil, or_false, not_or] at ordinary
  obtain ⟨noDot, noRight, noLeft⟩ := ordinary
  refine .single spelled (fun _ _ => suits_of_symbol fun arrow => ?_) fun context calm => ?_
  · rcases arrow with right | left
    · exact absurd right noRight
    · exact absurd left noLeft
  · exact calm.follow (by simpa [Word.symbol] using noDot) level

/-- The bracket that ends a node or a relationship. -/
theorem passes_closing {inner : Context} {mark : Symbol}
    (closes : (Kind.symbol mark).closesPattern = true)
    (level : (inner.follow (.symbol mark)).depths = outer.depths) :
    Passes (Calm inner) [.symbol mark] (Behind outer) := by
  have spelled : Spelled (.symbol mark) mark.spelling.toList mark.spelling.toList := .symbol
  refine .single spelled (fun _ _ => suits_of_symbol fun arrow => ?_) fun context calm => ?_
  · rcases arrow with rfl | rfl <;> contradiction
  · exact {
      depths := (depths_follow calm.depths _).trans level
      closed := by simpa [Context.afterPattern, Context.last_follow, Word.symbol] using closes }

theorem passes_separated {rows : List (List Word)}
    (written : ∀ row ∈ rows, Passes (Calm outer) row (Calm outer)) :
    Passes (Calm outer) (separated rows) (Calm outer) := by
  cases rows with
  | nil => exact .nil
  | cons first others =>
      rw [List.forall_mem_cons] at written
      obtain ⟨begins, follow⟩ := written
      have comma : Passes (Calm outer) [.symbol .comma] (Calm outer) :=
        passes_symbol (by decide) rfl
      exact begins.append (.flatMap fun row member => comma.cons (follow row member))

theorem passes_flagged (word : Keyword) (flag : Bool) :
    Passes (Calm outer) (flagged word flag) (Calm outer) := by
  cases flag with
  | false => exact .nil
  | true => exact passes_keyword word

theorem passes_access {access : PropertyAccess} (formed : access.WellFormed) :
    Passes (Calm outer) access.words (Calm outer) := by
  let dotted (context : Context) : Prop :=
    context.depths = outer.depths ∧ context.last = some (.symbol .dot)
  have dot : Passes (Calm outer) [.symbol .dot] dotted :=
    .single .symbol (fun _ _ => trivial) fun context calm =>
      ⟨depths_follow calm.depths _, Context.last_follow context _⟩
  -- Behind a dot even a reserved word is a name.
  have property : Passes dotted [.identifier access.property] (Calm outer) :=
    .single (.identifier formed.property) (fun _ start => .inl start.2) fun context start =>
      { depths := depths_follow start.1 _, apart := by simp [Context.last_follow, Word.identifier] }
  exact (passes_variable formed.owner).append (dot.cons property)

end Words

section Patterns

variable {outer : Context}

theorem isName_of_isLabel {label : String} (known : isLabel label = true) :
    isName label.toList = true := by
  have names : ∀ label ∈ labels, isName label.toList = true := by decide
  exact names label (List.contains_iff_mem.mp known)

theorem isName_of_isRelationshipType {type : String} (known : isRelationshipType type = true) :
    isName type.toList = true := by
  have names : ∀ type ∈ relationshipTypes, isName type.toList = true := by decide
  exact names type (List.contains_iff_mem.mp known)

theorem passes_map {pairs : List (String × Literal)}
    (named : ∀ pair ∈ pairs, isName pair.1.toList = true) :
    Passes (Calm outer) (mapWords pairs) (Calm outer) := by
  let inside := outer.follow (.symbol .leftBrace)
  have opening : Passes (Calm outer) [.symbol .leftBrace] (Calm inside) :=
    passes_symbol (by decide) rfl
  have colon : Passes (Calm inside) [.symbol .colon] (Calm inside) :=
    passes_symbol (by decide) rfl
  have closing : Passes (Calm inside) [.symbol .rightBrace] (Calm outer) :=
    passes_symbol (by decide) rfl
  refine opening.cons (.append (passes_separated fun row member => ?_) closing)
  obtain ⟨pair, listed, rfl⟩ := List.mem_map.mp member
  exact (passes_name (named pair listed)).cons (colon.cons (passes_literal pair.2))

theorem passes_node {pattern : NodePattern} (formed : pattern.WellFormed)
    (noMap : outer.braces = 0) : Passes (Calm outer) pattern.words (Behind outer) := by
  let inside := outer.follow (.symbol .leftParen)
  have labels : inside.allowsLabel = true := by
    simp [inside, Context.allowsLabel, Context.follow, noMap]
  have opening : Passes (Calm outer) [.symbol .leftParen] (Calm inside) :=
    passes_symbol (by decide) rfl
  have closing : Passes (Calm inside) [.symbol .rightParen] (Behind outer) :=
    passes_closing rfl rfl
  refine opening.cons (.append (.optional ?_) (.append (.optional ?_)
    (.append (.optional ?_) closing)))
  · exact fun identifier bound => passes_variable (formed.binder identifier bound)
  · exact fun label written =>
      passes_label (isName_of_isLabel (formed.label label written)) labels
  · exact fun pairs written =>
      passes_map fun pair listed => (formed.properties pairs written pair listed).1

theorem passes_range (range : HopRange) : Passes (Calm outer) range.words (Calm outer) := by
  have star : Passes (Calm outer) [.symbol .asterisk] (Calm outer) :=
    passes_symbol (by decide) rfl
  have dots : Passes (Calm outer) [.symbol .dotDot] (Calm outer) :=
    passes_symbol (by decide) rfl
  obtain ⟨low, high⟩ := range
  cases low with
  | none => exact star
  | some low =>
      cases high with
      | none => exact star.cons ((passes_number _).cons dots)
      | some high => exact star.cons ((passes_number _).cons (dots.cons (passes_number _)))

/-- An arrow may stand where a node or a relationship ends. -/
theorem passes_end {mark : Symbol} (arrow : mark ∈ [.dash, .rightArrow, .leftArrow]) :
    Passes (Behind outer) [.symbol mark] (Calm outer) := by
  have spelled : Spelled (.symbol mark) mark.spelling.toList mark.spelling.toList := .symbol
  have level : (outer.follow (.symbol mark)).depths = outer.depths ∧ mark ≠ .dot := by
    simp only [List.mem_cons, List.not_mem_nil, or_false] at arrow
    rcases arrow with rfl | rfl | rfl <;> exact ⟨rfl, by simp⟩
  refine .single spelled (fun _ behind => suits_of_symbol fun _ => behind.closed)
    fun context behind => ?_
  exact behind.calm.follow (by simpa [Word.symbol] using level.2) level.1

theorem passes_relationship {pattern : RelationshipPattern} (formed : pattern.WellFormed)
    (noMap : outer.braces = 0) : Passes (Behind outer) pattern.words (Calm outer) := by
  let inside := outer.follow (.symbol .leftBracket)
  have types : inside.allowsLabel = true := by
    simp [inside, Context.allowsLabel, Context.follow, noMap]
  have first : pattern.direction.opening ∈ [Symbol.dash, .rightArrow, .leftArrow] := by
    cases pattern.direction <;> decide
  have last : pattern.direction.closing ∈ [Symbol.dash, .rightArrow, .leftArrow] := by
    cases pattern.direction <;> decide
  have opening : Passes (Calm outer) [.symbol .leftBracket] (Calm inside) :=
    passes_symbol (by decide) rfl
  have closing : Passes (Calm inside) [.symbol .rightBracket] (Behind outer) :=
    passes_closing rfl rfl
  refine (passes_end first).cons (opening.cons (.append (.optional ?_) (.append (.optional ?_)
    (.append (.optional ?_) (closing.cons (passes_end last))))))
  · exact fun identifier bound => passes_variable (formed.binder identifier bound)
  · exact fun type written =>
      passes_label (isName_of_isRelationshipType (formed.type type written)) types
  · exact fun range _ => passes_range range

theorem passes_pattern {pattern : Pattern} (formed : pattern.WellFormed)
    (noMap : outer.braces = 0) : Passes (Calm outer) pattern.words (Behind outer) := by
  refine (passes_node formed.start noMap).append (.flatMap fun hop member => ?_)
  obtain ⟨relationship, node⟩ := formed.hops hop member
  exact (passes_relationship relationship noMap).append (passes_node node noMap)

end Patterns

section Conditions

variable {outer : Context}

theorem passes_operator (operator : ComparisonOperator) :
    Passes (Calm outer) operator.words (Calm outer) := by
  cases operator with
  | contains => exact passes_keyword _
  | startsWith => exact (passes_keyword _).cons (passes_keyword _)
  | endsWith => exact (passes_keyword _).cons (passes_keyword _)
  | _ => exact passes_symbol (by decide) rfl

theorem passes_operand {operand : Operand} (formed : operand.WellFormed) :
    Passes (Calm outer) operand.words (Calm outer) := by
  cases operand with
  | property access => exact passes_access formed
  | literal value => exact passes_literal value

theorem passes_parenthesised {words : List Word} (outer : Context)
    (inside : ∀ outer, Passes (Calm outer) words (Calm outer)) :
    Passes (Calm outer) (parenthesised words) (Calm outer) := by
  have opening : Passes (Calm outer) [.symbol .leftParen]
      (Calm (outer.follow (.symbol .leftParen))) := passes_symbol (by decide) rfl
  have closing : Passes (Calm (outer.follow (.symbol .leftParen))) [.symbol .rightParen]
      (Calm outer) := passes_symbol (by decide) rfl
  exact opening.cons ((inside _).append closing)

theorem passes_condition {condition : Condition} (formed : condition.WellFormed)
    (level : Grammar.Level) (outer : Context) :
    Passes (Calm outer) (condition.words level) (Calm outer) := by
  induction condition generalizing level outer with
  | comparison left operator right =>
      exact (passes_access formed.1).append
        ((passes_operator operator).append (passes_operand formed.2))
  | nullCheck access negated =>
      exact (passes_access formed).append ((passes_keyword _).cons
        ((passes_flagged _ negated).append (passes_keyword _)))
  | not inner ih => exact (passes_keyword _).cons (ih formed .term outer)
  -- Parentheses change the context, so what stands between them is scanned in all contexts.
  | and left right leftIH rightIH =>
      have bare (outer : Context) := (leftIH formed.1 .conjunction outer).append
        ((passes_keyword .andWord).cons (rightIH formed.2 .term outer))
      cases level with
      | term => exact passes_parenthesised outer bare
      | conjunction => exact bare outer
      | disjunction => exact bare outer
  | or left right leftIH rightIH =>
      have bare (outer : Context) := (leftIH formed.1 .disjunction outer).append
        ((passes_keyword .orWord).cons (rightIH formed.2 .conjunction outer))
      cases level with
      | term => exact passes_parenthesised outer bare
      | conjunction => exact passes_parenthesised outer bare
      | disjunction => exact bare outer

end Conditions

section Queries

variable {outer : Context}

theorem passes_aggregate {aggregate : Aggregate} (formed : aggregate.WellFormed) :
    Passes (Calm outer) aggregate.words (Calm outer) := by
  obtain ⟨function, distinct, argument⟩ := aggregate
  have applied (outer : Context) : Passes (Calm outer)
      (flagged .distinctWord distinct ++ argument.words) (Calm outer) := by
    refine (passes_flagged _ distinct).append ?_
    cases argument with
    | star => exact passes_symbol (by decide) rfl
    | property access => exact passes_access formed
    | element identifier => exact passes_variable formed
  have inParentheses := passes_parenthesised outer applied
  rw [parenthesised, List.append_assoc] at inParentheses
  exact (passes_keyword _).cons inParentheses

theorem passes_item {item : ReturnItem} (formed : item.WellFormed) :
    Passes (Calm outer) item.words (Calm outer) := by
  obtain ⟨expression, columnAlias⟩ := item
  refine .append ?_ (.optional fun name written => ?_)
  · cases expression with
    | property access => exact passes_access formed.expression
    | element identifier => exact passes_variable formed.expression
    | aggregate value => exact passes_aggregate formed.expression
  · exact (passes_keyword _).cons (passes_name (formed.columnAlias name written))

/-- The words of a well-formed query can be scanned from the start of a text. -/
theorem scans_words {query : DocumentGraph.Query} (formed : query.WellFormed) :
    Context.Scans {} query.words := by
  have patterns : Passes (Calm {}) (separated (query.patterns.map Pattern.words)) (Calm {}) := by
    refine passes_separated fun row member => ?_
    obtain ⟨pattern, listed, rfl⟩ := List.mem_map.mp member
    have passes : Passes (Calm {}) pattern.words (Behind {}) :=
      passes_pattern (formed.patterns pattern listed) rfl
    exact passes.weaken fun _ behind => behind.calm
  have filter : Passes (Calm {}) (optional filterWords query.condition) (Calm {}) :=
    .optional fun condition written =>
      (passes_keyword _).cons (passes_condition (formed.condition condition written) _ _)
  have items : Passes (Calm {}) (separated (query.projection.items.map ReturnItem.words))
      (Calm {}) := by
    refine passes_separated fun row member => ?_
    obtain ⟨item, listed, rfl⟩ := List.mem_map.mp member
    exact passes_item (formed.items item listed)
  have passes : Passes (Calm {}) query.words (Calm {}) :=
    (passes_keyword _).cons (patterns.append (filter.append ((passes_keyword _).cons
      ((passes_flagged _ query.projection.distinct).append items))))
  exact (passes {} { depths := rfl, apart := by simp }).1

end Queries

end DocumentGraph.Query
