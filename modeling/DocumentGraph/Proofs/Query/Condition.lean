import DocumentGraph.Proofs.Query.Names

namespace DocumentGraph.Query.Parse

/-! Reading conditions.

The reader collects the sides of AND and OR from the left, and a derivation splits off the
last one.  A `Chain` is what the reader collects; `conjunction_iff_chain` and
`disjunction_iff_chain` say that both views have the same readings.
-/

variable {marker : Token} {tokens rest run : List Token}

theorem operator_sound (ended : marker.kind = .endOfText) {operator : ComparisonOperator}
    (read : comparisonOperator marker tokens = .ok (operator, rest)) :
    ∃ run, tokens = run ++ rest ∧ Grammar.Operator run operator := by
  unfold comparisonOperator at read
  rw [peek_bind] at read
  cases tokens with
  | nil => simp [ended] at read
  | cons token behind =>
      rw [List.headD_cons] at read
      cases sort : token.kind with
      | symbol mark =>
          cases mark with
          | equals | notEquals | lessThan | lessEqual | greaterThan | greaterEqual =>
              simp only [sort, skip_bind, List.tail_cons, pure_eq_ok_iff] at read
              obtain ⟨rfl, rfl⟩ := read
              exact ⟨[token], rfl, by constructor; exact sort⟩
          | _ => simp [sort] at read
      | keyword word =>
          cases word with
          | containsWord =>
              simp only [sort, skip_bind, List.tail_cons, pure_eq_ok_iff] at read
              obtain ⟨rfl, rfl⟩ := read
              exact ⟨[token], rfl, .contains sort⟩
          | startsWord =>
              simp only [sort, skip_bind, List.tail_cons] at read
              obtain ⟨second, _, rfl, joined, later⟩ := expect_bind_cases ended (by simp) read
              obtain ⟨rfl, rfl⟩ := pure_eq_ok_iff.mp later
              exact ⟨[token, second], rfl, .startsWith sort joined⟩
          | endsWord =>
              simp only [sort, skip_bind, List.tail_cons] at read
              obtain ⟨second, _, rfl, joined, later⟩ := expect_bind_cases ended (by simp) read
              obtain ⟨rfl, rfl⟩ := pure_eq_ok_iff.mp later
              exact ⟨[token, second], rfl, .endsWith sort joined⟩
          | _ => simp [sort] at read
      | _ => simp [sort] at read

theorem operator_complete {operator : ComparisonOperator}
    (written : Grammar.Operator run operator) :
    comparisonOperator marker (run ++ rest) = .ok (operator, rest) := by
  unfold comparisonOperator
  cases written with
  | startsWith sort joined | endsWith sort joined =>
      simp only [List.cons_append, List.nil_append, peek_bind, List.headD_cons, sort, skip_bind,
        List.tail_cons, expect_bind_of_kind joined]
      rfl
  | equals sort | notEquals sort | lessThan sort | lessEqual sort | greaterThan sort
  | greaterEqual sort | contains sort =>
      simp only [List.cons_append, List.nil_append, peek_bind, List.headD_cons, sort]
      rfl

theorem reads_operator : Reads comparisonOperator Grammar.Operator always :=
  ⟨fun ended read => operator_sound ended read, fun _ written _ => operator_complete written⟩

theorem operand_sound (ended : marker.kind = .endOfText) {value : Operand}
    (read : operand marker tokens = .ok (value, rest)) :
    ∃ run, tokens = run ++ rest ∧ Grammar.Operand run value := by
  unfold operand at read
  rw [get_bind, peek_bind] at read
  split at read
  · obtain ⟨run, _, access, rfl, written, later⟩ := reads_propertyAccess.bind_cases ended read
    obtain ⟨rfl, rfl⟩ := pure_eq_ok_iff.mp later
    exact ⟨run, rfl, .property written⟩
  · obtain ⟨found, _, literal, later⟩ := bind_eq_ok read
    rcases literal?_cases ended literal with ⟨value, token, rfl, rfl, written⟩ | ⟨rfl, _⟩
    · obtain ⟨rfl, rfl⟩ := pure_eq_ok_iff.mp later
      exact ⟨[token], rfl, .literal written⟩
    · exact absurd later reject_ne_ok

theorem operand_complete (ended : marker.kind = .endOfText) {value : Operand}
    (written : Grammar.Operand run value) :
    operand marker (run ++ rest) = .ok (value, rest) := by
  unfold operand
  rw [get_bind, peek_bind]
  cases written with
  | property written =>
      obtain ⟨owner, dot, behind, rfl, sort, mark⟩ := exists_of_access written
      rw [if_pos (by simp [sort, mark]), reads_propertyAccess.bind_of ended written trivial]
      rfl
  | literal written =>
      obtain ⟨token, rfl, sort⟩ := exists_of_literal written
      rw [if_neg (by simp [sort]), bind_of_ok (literal?_complete written)]
      rfl

theorem reads_operand : Reads operand Grammar.Operand always :=
  ⟨fun ended read => operand_sound ended read, fun ended written _ => operand_complete ended written⟩

theorem reads_predicate : Reads predicate Grammar.Predicate always where
  sound := by
    intro marker tokens value rest ended read
    unfold predicate at read
    obtain ⟨first, _, left, rfl, owned, read⟩ := reads_propertyAccess.bind_cases ended read
    rcases accept_bind_cases ended (by simp) read with ⟨is, _, rfl, asked, later⟩ | ⟨_, later⟩
    · rw [if_pos rfl] at later
      rcases accept_bind_cases ended (by simp) later with ⟨no, _, rfl, negated, next⟩ | ⟨_, next⟩
      · obtain ⟨null, _, rfl, missing, last⟩ := expect_bind_cases ended (by simp) next
        obtain ⟨rfl, rfl⟩ := pure_eq_ok_iff.mp last
        exact ⟨first ++ [is, no, null], by simp, .isNotNull owned asked negated missing⟩
      · obtain ⟨null, _, rfl, missing, last⟩ := expect_bind_cases ended (by simp) next
        obtain ⟨rfl, rfl⟩ := pure_eq_ok_iff.mp last
        exact ⟨first ++ [is, null], by simp, .isNull owned asked missing⟩
    · rw [if_neg (by simp)] at later
      obtain ⟨second, _, operator, rfl, operated, next⟩ := reads_operator.bind_cases ended later
      obtain ⟨third, _, right, rfl, against, last⟩ := reads_operand.bind_cases ended next
      obtain ⟨rfl, rfl⟩ := pure_eq_ok_iff.mp last
      exact ⟨first ++ (second ++ third), by simp, .comparison owned operated against⟩
  complete := by
    intro marker run value rest ended written stops
    unfold predicate
    cases written with
    | comparison compared operated against =>
        rw [List.append_assoc, reads_propertyAccess.bind_of ended compared trivial,
          accept_bind_of_ne ended ?_, if_neg (by simp), List.append_assoc,
          reads_operator.bind_of ended operated trivial,
          reads_operand.bind_of ended against trivial]
        · rfl
        · cases operated with
          | startsWith sort joined | endsWith sort joined => simp [sort]
          | equals sort | notEquals sort | lessThan sort | lessEqual sort | greaterThan sort
          | greaterEqual sort | contains sort => simp [sort]
    | isNull checked asked missing =>
        rw [List.append_assoc, reads_propertyAccess.bind_of ended checked trivial,
          List.cons_append, accept_bind_of_kind asked, if_pos rfl, List.singleton_append,
          accept_bind_of_ne ended (by simp [missing]), expect_bind_of_kind missing]
        rfl
    | isNotNull checked asked negated missing =>
        rw [List.append_assoc, reads_propertyAccess.bind_of ended checked trivial,
          List.cons_append, accept_bind_of_kind asked, if_pos rfl, List.cons_append,
          List.singleton_append, accept_bind_of_kind negated, expect_bind_of_kind missing]
        rfl

/-- One or more phrases joined by a word, folded from the left. -/
def Chain (word : Keyword) (merge : Condition → Condition → Condition)
    (phrase : List Token → Condition → Prop) (run : List Token) (condition : Condition) : Prop :=
  ∃ first others, Grammar.Separated (.keyword word) phrase run (first :: others) ∧
    others.foldl merge first = condition

section Grouping

variable {word : Keyword} {merge : Condition → Condition → Condition}
  {phrase outer : List Token → Condition → Prop} {condition left right : Condition}
  {others : List Condition} {first second : List Token} {mark : Token}

theorem Chain.single (written : phrase run condition) : Chain word merge phrase run condition := by
  refine ⟨condition, [], ?_, rfl⟩
  rw [← List.append_nil run]
  exact .mk written .none

theorem further_concat (further : Grammar.Further (.keyword word) phrase first others)
    (sort : mark.kind = .keyword word) (last : phrase second right) :
    Grammar.Further (.keyword word) phrase (first ++ mark :: second) (others ++ [right]) := by
  induction further with
  | none =>
      rw [List.nil_append, ← List.append_nil second]
      exact .more sort last .none
  | more here next others ih =>
      rw [List.cons_append, List.append_assoc]
      exact .more here next ih

theorem Chain.join (before : Chain word merge phrase first left)
    (sort : mark.kind = .keyword word) (behind : phrase second right) :
    Chain word merge phrase (first ++ mark :: second) (merge left right) := by
  obtain ⟨head, others, listed, rfl⟩ := before
  cases listed with
  | mk written further =>
      refine ⟨head, others ++ [right], ?_, by simp⟩
      rw [List.append_assoc]
      exact .mk written (further_concat further sort behind)

theorem of_further (joins : ∀ {first second mark left right}, outer first left →
      mark.kind = .keyword word → phrase second right →
      outer (first ++ mark :: second) (merge left right))
    (start : outer first left) (further : Grammar.Further (.keyword word) phrase second others) :
    outer (first ++ second) (others.foldl merge left) := by
  induction further generalizing first left with
  | none => rwa [List.append_nil]
  | more sort next others ih =>
      have longer := ih (joins start sort next)
      rwa [List.append_assoc, List.cons_append] at longer

/-- What holds of single phrases and is kept by joining one more holds of chains. -/
theorem Chain.elim (chain : Chain word merge phrase run condition)
    (single : ∀ {run condition}, phrase run condition → outer run condition)
    (joins : ∀ {first second mark left right}, outer first left →
      mark.kind = .keyword word → phrase second right →
      outer (first ++ mark :: second) (merge left right)) : outer run condition := by
  obtain ⟨head, others, listed, rfl⟩ := chain
  cases listed with
  | mk written further => exact of_further joins (single written) further

theorem reads_grouped {phrase : Parse Condition} {spelled : List Token → Condition → Prop}
    {ends : Kind → Prop} (reads : Reads phrase spelled ends) (joined : ends (.keyword word)) :
    Reads (grouped word merge phrase) (Chain word merge spelled)
      (fun kind => kind ≠ .keyword word ∧ ends kind) where
  sound := by
    intro marker tokens condition rest ended read
    unfold grouped at read
    obtain ⟨run, _, ⟨head, others⟩, rfl, listed, later⟩ :=
      (reads_separated reads (by simp) joined).bind_cases ended read
    obtain ⟨rfl, rfl⟩ := pure_eq_ok_iff.mp later
    exact ⟨run, rfl, head, others, listed, rfl⟩
  complete := by
    intro marker run condition rest ended chain stops
    obtain ⟨head, others, listed, rfl⟩ := chain
    unfold grouped
    have read : separated (.keyword word) phrase marker (run ++ rest) =
        .ok ((head, others), rest) :=
      (reads_separated reads (by simp) joined).complete ended listed stops
    rw [bind_of_ok read]
    rfl

end Grouping

section Nesting

open Grammar (Level nestingLimit)

variable {around : Nat} {condition : Condition} {level : Level}

theorem lt_nestingLimit (written : Grammar.Condition level around run condition) :
    around < nestingLimit := by
  induction written with
  | predicate shallow => exact shallow
  | not _ _ ih | parentheses _ _ _ ih => omega
  | term _ ih | and _ _ _ ih | conjunction _ ih | or _ _ _ ih => exact ih

/-- A derivation by its last step, seen from the left. -/
theorem chain_of_condition (written : Grammar.Condition level around run condition) :
    match level with
    | .term => True
    | .conjunction => Chain .andWord .and (Grammar.Condition .term around) run condition
    | .disjunction => Chain .orWord .or (Grammar.Condition .conjunction around) run condition := by
  induction written with
  | predicate | not | parentheses => trivial
  | term single ih => exact .single single
  | and before sort behind beforeChain _ => exact beforeChain.join sort behind
  | conjunction single ih => exact .single single
  | or before sort behind beforeChain _ => exact beforeChain.join sort behind

theorem conjunction_iff_chain : Grammar.Condition .conjunction around run condition ↔
    Chain .andWord .and (Grammar.Condition .term around) run condition :=
  ⟨fun written => chain_of_condition written, fun chain => chain.elim .term .and⟩

theorem disjunction_iff_chain : Grammar.Condition .disjunction around run condition ↔
    Chain .orWord .or (Grammar.Condition .conjunction around) run condition :=
  ⟨fun written => chain_of_condition written, fun chain => chain.elim .conjunction .or⟩

theorem reads_conjunction {phrase : Parse Condition}
    (reads : Reads phrase (Grammar.Condition .term around) always) :
    Reads (conjunction phrase) (Grammar.Condition .conjunction around)
      (· ≠ .keyword .andWord) :=
  ((reads_grouped reads trivial).congr conjunction_iff_chain).weaken
    fun _ other => ⟨other, trivial⟩

theorem reads_disjunction {phrase : Parse Condition}
    (reads : Reads phrase (Grammar.Condition .term around) always) :
    Reads (disjunction phrase) (Grammar.Condition .disjunction around)
      (fun kind => kind ≠ .keyword .orWord ∧ kind ≠ .keyword .andWord) :=
  (reads_grouped (reads_conjunction reads) (by simp)).congr disjunction_iff_chain

theorem kindAhead_predicate (written : Grammar.Predicate run condition) :
    kindAhead (run ++ rest) = .identifier := by
  cases written with
  | comparison owned | isNull owned | isNotNull owned =>
      rw [List.append_assoc]
      exact kindAhead_access owned

theorem term_sound {allowance : Nat} (depth : around + (allowance + 1) = nestingLimit)
    (inner : Reads (term allowance) (Grammar.Condition .term (around + 1)) always)
    (ended : marker.kind = .endOfText)
    (read : term (allowance + 1) marker tokens = .ok (condition, rest)) :
    ∃ run, tokens = run ++ rest ∧ Grammar.Condition .term around run condition := by
  unfold term at read
  rcases accept_bind_cases ended (by simp) read with ⟨word, _, rfl, sort, later⟩ | ⟨_, later⟩
  · rw [if_pos rfl] at later
    obtain ⟨run, _, inside, rfl, negated, last⟩ := inner.bind_cases ended later
    obtain ⟨rfl, rfl⟩ := pure_eq_ok_iff.mp last
    exact ⟨word :: run, rfl, .not sort negated⟩
  · rw [if_neg (by simp)] at later
    rcases accept_bind_cases ended (by simp) later with ⟨left, _, rfl, opened, next⟩ | ⟨_, next⟩
    · rw [if_pos rfl] at next
      obtain ⟨run, _, inside, rfl, grouped, next⟩ :=
        (reads_disjunction inner).bind_cases ended next
      obtain ⟨right, _, rfl, closed, last⟩ := expect_bind_cases ended (by simp) next
      obtain ⟨rfl, rfl⟩ := pure_eq_ok_iff.mp last
      exact ⟨left :: (run ++ [right]), by simp, .parentheses opened grouped closed⟩
    · rw [if_neg (by simp)] at next
      obtain ⟨run, rfl, written⟩ := reads_predicate.sound ended next
      exact ⟨run, rfl, .predicate (by omega) written⟩

theorem term_complete {allowance : Nat}
    (inner : Reads (term allowance) (Grammar.Condition .term (around + 1)) always)
    (ended : marker.kind = .endOfText) (written : Grammar.Condition .term around run condition) :
    term (allowance + 1) marker (run ++ rest) = .ok (condition, rest) := by
  unfold term
  cases written with
  | predicate shallow written =>
      rw [accept_bind_of_ne ended (by rw [kindAhead_predicate written]; simp), if_neg (by simp),
        accept_bind_of_ne ended (by rw [kindAhead_predicate written]; simp), if_neg (by simp)]
      exact reads_predicate.complete ended written trivial
  | not sort negated =>
      rw [List.cons_append, accept_bind_of_kind sort, if_pos rfl,
        inner.bind_of ended negated trivial]
      rfl
  | parentheses opened grouped closed =>
      rw [List.cons_append, accept_bind_of_ne ended (by simp [opened]), if_neg (by simp),
        accept_bind_of_kind opened, if_pos rfl, List.append_assoc,
        (reads_disjunction inner).bind_of ended grouped ?_, List.singleton_append,
        expect_bind_of_kind closed]
      · rfl
      · simp [closed]

/-- What may still be opened and what is open make up the limit. -/
theorem reads_term {allowance : Nat} (depth : around + allowance = nestingLimit) :
    Reads (term allowance) (Grammar.Condition .term around) always := by
  induction allowance generalizing around with
  | zero =>
      constructor
      · intro marker tokens condition rest ended read
        exact absurd read reject_ne_ok
      · intro marker run condition rest ended written stops
        have shallow := lt_nestingLimit written
        omega
  | succ allowance ih =>
      have inner : Reads (term allowance) (Grammar.Condition .term (around + 1)) always :=
        ih (by omega)
      exact ⟨term_sound depth inner, fun ended written _ => term_complete inner ended written⟩

theorem reads_condition : Reads Parse.condition (Grammar.Condition .disjunction 0)
    (fun kind => kind ≠ .keyword .orWord ∧ kind ≠ .keyword .andWord) := by
  have depth : 0 + nestingAllowance = nestingLimit := rfl
  exact reads_disjunction (reads_term depth)

end Nesting

end DocumentGraph.Query.Parse
