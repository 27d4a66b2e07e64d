import DocumentGraph.Proofs.Query.Phrase

namespace DocumentGraph.Query.Parse

/-! Reading names, literals and references to properties. -/

variable {α : Type} {marker : Token} {tokens rest run : List Token} {kind : Kind}

theorem opens_named : Opens kind (Grammar.Named kind) := by
  intro _ _ written
  obtain ⟨sort⟩ := written
  exact ⟨_, [], rfl, sort⟩

theorem reads_named? (inText : kind ≠ .endOfText) :
    Reads (named? kind) (Grammar.Optional (Grammar.Named kind)) (· ≠ kind) := by
  have single : ∀ token : Token, token.kind = kind →
      Reads (pure { name := token.text, position := token.position })
        (fun run => Grammar.Named kind (token :: run)) always := by
    intro token sort
    constructor
    · intro marker tokens value rest ended read
      obtain ⟨rfl, rfl⟩ := pure_eq_ok_iff.mp read
      exact ⟨[], rfl, .mk sort⟩
    · intro marker run value rest ended written stops
      cases written
      rfl
  exact (reads_optionally single opens_named inText).weaken fun _ other => ⟨other, trivial⟩

theorem reads_identifier (expected : String) :
    Reads (identifier expected) (Grammar.Named .identifier) always where
  sound := by
    intro marker tokens value rest ended read
    unfold identifier at read
    obtain ⟨run, _, found, rfl, written, later⟩ := (reads_named? (by simp)).bind_cases ended read
    cases written with
    | absent => exact absurd later reject_ne_ok
    | present written =>
        obtain ⟨rfl, rfl⟩ := pure_eq_ok_iff.mp later
        exact ⟨run, rfl, written⟩
  complete := by
    intro marker run value rest ended written stops
    cases written with
    | mk sort =>
        unfold identifier named? optionally
        rw [List.singleton_append, bind_assoc, peek_bind, List.headD_cons, if_pos sort]
        rfl

theorem reads_name (expected : String) : Reads (name expected) Grammar.Name always where
  sound := by
    intro marker tokens value rest ended read
    unfold name at read
    rw [peek_bind] at read
    cases tokens with
    | nil => simp [ended, Kind.isKeyword] at read
    | cons token behind =>
        rw [List.headD_cons] at read
        split at read
        · rename_i named
          rw [skip_bind, List.tail_cons] at read
          obtain ⟨rfl, rfl⟩ := pure_eq_ok_iff.mp read
          refine ⟨[token], rfl, ?_⟩
          cases sort : token.kind with
          | identifier => exact .identifier sort
          | keyword word => exact .keyword sort
          | _ => simp [sort, Kind.isKeyword] at named
        · exact absurd read reject_ne_ok
  complete := by
    intro marker run value rest ended written stops
    unfold name
    cases written with
    | identifier sort | keyword sort =>
        rw [List.singleton_append, peek_bind, List.headD_cons,
          if_pos (by simp [sort, Kind.isKeyword])]
        rfl

/-- A literal is one token; what is no literal is left alone. -/
theorem literal?_cases (ended : marker.kind = .endOfText) {found : Option Literal}
    (read : literal? marker tokens = .ok (found, rest)) :
    (∃ value token, found = some value ∧ tokens = token :: rest ∧ Grammar.Literal [token] value) ∨
    (found = none ∧ tokens = rest) := by
  unfold literal? at read
  rw [peek_bind] at read
  cases tokens with
  | nil =>
      rw [List.headD_nil, ended] at read
      obtain ⟨rfl, rfl⟩ := pure_eq_ok_iff.mp read
      exact .inr ⟨rfl, rfl⟩
  | cons token behind =>
      rw [List.headD_cons] at read
      cases sort : token.kind with
      | string =>
          simp only [sort, skip_bind, List.tail_cons, pure_eq_ok_iff] at read
          obtain ⟨rfl, rfl⟩ := read
          exact .inl ⟨_, token, rfl, rfl, .string sort⟩
      | integer =>
          simp only [sort] at read
          cases number : Text.readInt64? token.text.toList with
          | none => simp [number] at read
          | some value =>
              simp only [number, skip_bind, List.tail_cons, pure_eq_ok_iff] at read
              obtain ⟨rfl, rfl⟩ := read
              exact .inl ⟨_, token, rfl, rfl, .integer sort (Text.readInt64?_eq_some_iff.mp number)⟩
      | keyword word =>
          cases word with
          | trueWord | falseWord | nullWord =>
              simp only [sort, skip_bind, List.tail_cons, pure_eq_ok_iff] at read
              obtain ⟨rfl, rfl⟩ := read
              exact .inl ⟨_, token, rfl, rfl, by constructor; exact sort⟩
          | _ =>
              simp only [sort, pure_eq_ok_iff] at read
              obtain ⟨rfl, rfl⟩ := read
              exact .inr ⟨rfl, rfl⟩
      | _ =>
          simp only [sort, pure_eq_ok_iff] at read
          obtain ⟨rfl, rfl⟩ := read
          exact .inr ⟨rfl, rfl⟩

theorem literal?_complete {value : Literal} (written : Grammar.Literal run value) :
    literal? marker (run ++ rest) = .ok (some value, rest) := by
  unfold literal?
  cases written with
  | integer sort number =>
      simp only [List.cons_append, List.nil_append, peek_bind, List.headD_cons, sort,
        Text.readInt64?_eq_some_iff.mpr number]
      rfl
  | string sort | trueWord sort | falseWord sort | nullWord sort =>
      simp only [List.cons_append, List.nil_append, peek_bind, List.headD_cons, sort]
      rfl

theorem exists_of_literal {value : Literal} (written : Grammar.Literal run value) :
    ∃ token, run = [token] ∧ token.kind ≠ .identifier := by
  cases written with
  | string sort | integer sort number | trueWord sort | falseWord sort | nullWord sort =>
      exact ⟨_, rfl, by simp [sort]⟩

theorem reads_propertyAccess : Reads propertyAccess Grammar.Access always where
  sound := by
    intro marker tokens value rest ended read
    unfold propertyAccess at read
    obtain ⟨first, _, owner, rfl, owned, read⟩ := (reads_identifier _).bind_cases ended read
    obtain ⟨dot, _, rfl, mark, read⟩ := expect_bind_cases ended (by simp) read
    obtain ⟨second, _, property, rfl, named, read⟩ := (reads_name _).bind_cases ended read
    obtain ⟨rfl, rfl⟩ := pure_eq_ok_iff.mp read
    exact ⟨first ++ dot :: second, by simp, .mk owned mark named⟩
  complete := by
    intro marker run value rest ended written stops
    unfold propertyAccess
    cases written with
    | mk owned mark named =>
        rw [List.append_assoc, (reads_identifier _).bind_of ended owned trivial, List.cons_append,
          expect_bind_of_kind mark, (reads_name _).bind_of ended named trivial]
        rfl

theorem exists_of_access {access : PropertyAccess} (written : Grammar.Access run access) :
    ∃ owner dot behind, run = owner :: dot :: behind ∧ owner.kind = .identifier ∧
      dot.kind = .symbol .dot := by
  rcases written with ⟨⟨sort⟩, mark, named⟩
  exact ⟨_, _, _, rfl, sort, mark⟩

theorem kindAhead_access {access : PropertyAccess} (written : Grammar.Access run access) :
    kindAhead (run ++ rest) = .identifier := by
  obtain ⟨owner, dot, behind, rfl, sort, mark⟩ := exists_of_access written
  exact sort

/-- What a variable, with or without a property, is read as. -/
inductive Referred (ofProperty : PropertyAccess → α) (ofVariable : Identifier → α) :
    List Token → α → Prop where
  | property {run : List Token} {access : PropertyAccess} (written : Grammar.Access run access) :
      Referred ofProperty ofVariable run (ofProperty access)
  | alone {run : List Token} {identifier : Identifier}
      (written : Grammar.Named .identifier run identifier) :
      Referred ofProperty ofVariable run (ofVariable identifier)

theorem reads_reference {ofProperty : PropertyAccess → α} {ofVariable : Identifier → α} :
    Reads (reference ofProperty ofVariable) (Referred ofProperty ofVariable)
      (· ≠ .symbol .dot) where
  sound := by
    intro marker tokens value rest ended read
    unfold reference at read
    obtain ⟨first, behind, owner, rfl, owned, read⟩ := (reads_identifier _).bind_cases ended read
    rcases accept_bind_cases ended (by simp) read with ⟨dot, _, rfl, mark, later⟩ | ⟨_, later⟩
    · rw [if_pos rfl] at later
      obtain ⟨second, _, property, rfl, named, last⟩ := (reads_name _).bind_cases ended later
      obtain ⟨rfl, rfl⟩ := pure_eq_ok_iff.mp last
      exact ⟨first ++ dot :: second, by simp, .property (.mk owned mark named)⟩
    · obtain ⟨rfl, rfl⟩ := pure_eq_ok_iff.mp later
      exact ⟨first, rfl, .alone owned⟩
  complete := by
    intro marker run value rest ended written stops
    unfold reference
    cases written with
    | property written =>
        cases written with
        | mk owned mark named =>
            rw [List.append_assoc, (reads_identifier _).bind_of ended owned trivial,
              List.cons_append, accept_bind_of_kind mark, if_pos rfl,
              (reads_name _).bind_of ended named trivial]
            rfl
    | alone written =>
        rw [(reads_identifier _).bind_of ended written trivial, accept_bind_of_ne ended stops]
        rfl

end DocumentGraph.Query.Parse
