import DocumentGraph.Proofs.Query.Grammar
import DocumentGraph.Query.Parse

namespace DocumentGraph.Query.Parse

/-! Reading phrases from the tokens ahead.

`Reads` ties the function that reads a phrase to the relation that says what spells it.  What
is read is spelled so; what is spelled so is read, unless the token behind it could belong to
the phrase.
-/

variable {α β : Type} {marker : Token} {tokens rest : List Token} {kind : Kind}

/-- The kind of the next token; the text ends behind the last one. -/
def kindAhead (tokens : List Token) : Kind :=
  (tokens.head?.map Token.kind).getD .endOfText

@[simp] theorem kindAhead_nil : kindAhead [] = .endOfText := rfl

@[simp] theorem kindAhead_cons (token : Token) (tokens : List Token) :
    kindAhead (token :: tokens) = token.kind := rfl

theorem kind_headD (ended : marker.kind = .endOfText) :
    (tokens.headD marker).kind = kindAhead tokens := by
  cases tokens with
  | nil => exact ended
  | cons token rest => rfl

theorem exists_of_kindAhead (sort : kindAhead tokens = kind) (inText : kind ≠ .endOfText) :
    ∃ token rest, tokens = token :: rest ∧ token.kind = kind := by
  cases tokens with
  | nil => exact absurd sort.symm inText
  | cons token rest => exact ⟨token, rest, rfl, sort⟩

theorem bind_eq_ok {phrase : Parse α} {next : α → Parse β} {result : β}
    (read : (phrase >>= next) marker tokens = .ok (result, rest)) :
    ∃ value middle, phrase marker tokens = .ok (value, middle) ∧
      next value marker middle = .ok (result, rest) := by
  change (phrase marker tokens).bind (fun (value, middle) => next value marker middle) = _ at read
  cases first : phrase marker tokens with
  | error reason =>
      rw [first] at read
      contradiction
  | ok outcome =>
      rw [first] at read
      exact ⟨outcome.1, outcome.2, rfl, read⟩

theorem bind_of_ok {phrase : Parse α} {next : α → Parse β} {value : α} {middle : List Token}
    (read : phrase marker tokens = .ok (value, middle)) :
    (phrase >>= next) marker tokens = next value marker middle := by
  change (phrase marker tokens).bind (fun (value, middle) => next value marker middle) = _
  rw [read]
  rfl

@[simp] theorem pure_eq_ok_iff {value result : α} :
    (pure value : Parse α) marker tokens = .ok (result, rest) ↔ value = result ∧ tokens = rest := by
  change Except.ok (value, tokens) = Except.ok (result, rest) ↔ _
  rw [Except.ok.injEq, Prod.mk.injEq]

@[simp] theorem peek_bind {next : Token → Parse β} :
    (peek >>= next) marker tokens = next (tokens.headD marker) marker tokens := rfl

@[simp] theorem skip_bind {next : Unit → Parse β} :
    (skip >>= next) marker tokens = next () marker tokens.tail := rfl

@[simp] theorem get_bind {next : List Token → Parse β} :
    ((get : Parse (List Token)) >>= next) marker tokens = next tokens marker tokens := rfl

@[simp] theorem throw_ne_ok {error : QueryError} {result : α} :
    (throw error : Parse α) marker tokens ≠ .ok (result, rest) := by
  intro read
  contradiction

@[simp] theorem reject_ne_ok {expected : String} {result : α} :
    (reject expected : Parse α) marker tokens ≠ .ok (result, rest) := by
  intro read
  contradiction

theorem accept_of_kind {token : Token} (sort : token.kind = kind) :
    accept kind marker (token :: rest) = .ok (true, rest) := by
  unfold accept
  rw [peek_bind, List.headD_cons, if_pos sort]
  rfl

theorem accept_of_ne (ended : marker.kind = .endOfText) (other : kindAhead tokens ≠ kind) :
    accept kind marker tokens = .ok (false, tokens) := by
  unfold accept
  rw [peek_bind, kind_headD ended, if_neg other]
  rfl

theorem accept_cases (ended : marker.kind = .endOfText) (inText : kind ≠ .endOfText)
    {found : Bool} (read : accept kind marker tokens = .ok (found, rest)) :
    (found = true ∧ ∃ token, tokens = token :: rest ∧ token.kind = kind) ∨
    (found = false ∧ tokens = rest ∧ kindAhead tokens ≠ kind) := by
  by_cases sort : kindAhead tokens = kind
  · obtain ⟨token, behind, rfl, same⟩ := exists_of_kindAhead sort inText
    rw [accept_of_kind same, Except.ok.injEq, Prod.mk.injEq] at read
    obtain ⟨rfl, rfl⟩ := read
    exact .inl ⟨rfl, token, rfl, same⟩
  · rw [accept_of_ne ended sort, Except.ok.injEq, Prod.mk.injEq] at read
    obtain ⟨rfl, rfl⟩ := read
    exact .inr ⟨rfl, rfl, sort⟩

theorem accept_bind_of_kind {token : Token} (sort : token.kind = kind) {next : Bool → Parse β} :
    (accept kind >>= next) marker (token :: rest) = next true marker rest :=
  bind_of_ok (accept_of_kind sort)

theorem accept_bind_of_ne (ended : marker.kind = .endOfText) (other : kindAhead tokens ≠ kind)
    {next : Bool → Parse β} : (accept kind >>= next) marker tokens = next false marker tokens :=
  bind_of_ok (accept_of_ne ended other)

theorem accept_bind_cases (ended : marker.kind = .endOfText) (inText : kind ≠ .endOfText)
    {next : Bool → Parse β} {result : β}
    (read : (accept kind >>= next) marker tokens = .ok (result, rest)) :
    (∃ token behind, tokens = token :: behind ∧ token.kind = kind ∧
      next true marker behind = .ok (result, rest)) ∨
    (kindAhead tokens ≠ kind ∧ next false marker tokens = .ok (result, rest)) := by
  obtain ⟨found, middle, first, later⟩ := bind_eq_ok read
  rcases accept_cases ended inText first with ⟨rfl, token, rfl, sort⟩ | ⟨rfl, rfl, other⟩
  · exact .inl ⟨token, middle, rfl, sort, later⟩
  · exact .inr ⟨other, later⟩

theorem expect_bind_of_kind {token : Token} (sort : token.kind = kind) {next : Unit → Parse β} :
    (expect kind >>= next) marker (token :: rest) = next () marker rest := by
  refine bind_of_ok ?_
  unfold expect
  rw [accept_bind_of_kind sort]
  rfl

theorem expect_bind_cases (ended : marker.kind = .endOfText) (inText : kind ≠ .endOfText)
    {next : Unit → Parse β} {result : β}
    (read : (expect kind >>= next) marker tokens = .ok (result, rest)) :
    ∃ token behind, tokens = token :: behind ∧ token.kind = kind ∧
      next () marker behind = .ok (result, rest) := by
  obtain ⟨nothing, middle, first, later⟩ := bind_eq_ok read
  unfold expect at first
  rcases accept_bind_cases ended inText first with
    ⟨token, behind, rfl, sort, taken⟩ | ⟨_, refused⟩
  · obtain ⟨rfl, rfl⟩ := pure_eq_ok_iff.mp taken
    exact ⟨token, behind, rfl, sort, later⟩
  · exact absurd refused reject_ne_ok

/-- The function reads the phrase, if the token behind it is of a kind that `ends` it. -/
structure Reads (phrase : Parse α) (spelled : List Token → α → Prop) (ends : Kind → Prop) :
    Prop where
  sound : ∀ {marker tokens value rest}, marker.kind = .endOfText →
    phrase marker tokens = .ok (value, rest) → ∃ run, tokens = run ++ rest ∧ spelled run value
  complete : ∀ {marker run value rest}, marker.kind = .endOfText → spelled run value →
    ends (kindAhead rest) → phrase marker (run ++ rest) = .ok (value, rest)

namespace Reads

variable {phrase : Parse α} {spelled : List Token → α → Prop} {ends : Kind → Prop}
  {next : α → Parse β} {result : β}

theorem bind_cases (reads : Reads phrase spelled ends) (ended : marker.kind = .endOfText)
    (read : (phrase >>= next) marker tokens = .ok (result, rest)) :
    ∃ run behind value, tokens = run ++ behind ∧ spelled run value ∧
      next value marker behind = .ok (result, rest) := by
  obtain ⟨value, middle, first, later⟩ := bind_eq_ok read
  obtain ⟨run, rfl, written⟩ := reads.sound ended first
  exact ⟨run, middle, value, rfl, written, later⟩

theorem bind_of (reads : Reads phrase spelled ends) (ended : marker.kind = .endOfText)
    {run : List Token} {value : α} (written : spelled run value) (stops : ends (kindAhead rest)) :
    (phrase >>= next) marker (run ++ rest) = next value marker rest :=
  bind_of_ok (reads.complete ended written stops)

theorem weaken (reads : Reads phrase spelled ends) {ends' : Kind → Prop}
    (stops : ∀ kind, ends' kind → ends kind) : Reads phrase spelled ends' where
  sound := reads.sound
  complete ended written stop := reads.complete ended written (stops _ stop)

theorem congr (reads : Reads phrase spelled ends) {spelled' : List Token → α → Prop}
    (same : ∀ {run value}, spelled' run value ↔ spelled run value) :
    Reads phrase spelled' ends where
  sound ended read := by
    obtain ⟨run, split, written⟩ := reads.sound ended read
    exact ⟨run, split, same.mpr written⟩
  complete ended written stops := reads.complete ended (same.mp written) stops

end Reads

/-- Whatever follows ends the phrase. -/
@[simp] def always (_ : Kind) : Prop := True

def Opens (opening : Kind) (spelled : List Token → α → Prop) : Prop :=
  ∀ {run value}, spelled run value → ∃ token behind, run = token :: behind ∧ token.kind = opening

section Choice

variable {opening : Kind} {spelled : List Token → α → Prop} {ends : Kind → Prop}

theorem Opens.kindAhead (opens : Opens opening spelled) {run : List Token} {value : α}
    (written : spelled run value) : kindAhead (run ++ rest) = opening := by
  obtain ⟨token, behind, rfl, sort⟩ := opens written
  exact sort

theorem Opens.kindAhead_optional_ne (opens : Opens opening spelled) {run : List Token}
    {value : Option α} (written : Grammar.Optional spelled run value) (inside : opening ≠ kind)
    (behind : Parse.kindAhead rest ≠ kind) : Parse.kindAhead (run ++ rest) ≠ kind := by
  cases written with
  | absent => exact behind
  | present written => rwa [opens.kindAhead written]

theorem reads_optionally {phrase : Token → Parse α}
    (reads : ∀ token, token.kind = opening →
      Reads (phrase token) (fun run => spelled (token :: run)) ends)
    (opens : Opens opening spelled) (inText : opening ≠ .endOfText) :
    Reads (optionally opening phrase) (Grammar.Optional spelled)
      (fun kind => kind ≠ opening ∧ ends kind) where
  sound := by
    intro marker tokens value rest ended read
    unfold optionally at read
    rw [peek_bind, kind_headD ended] at read
    split at read
    · rename_i sort
      obtain ⟨token, behind, rfl, same⟩ := exists_of_kindAhead sort inText
      rw [skip_bind, List.tail_cons, List.headD_cons] at read
      obtain ⟨run, _, value, rfl, written, later⟩ := (reads token same).bind_cases ended read
      obtain ⟨rfl, rfl⟩ := pure_eq_ok_iff.mp later
      exact ⟨token :: run, rfl, .present written⟩
    · obtain ⟨rfl, rfl⟩ := pure_eq_ok_iff.mp read
      exact ⟨[], rfl, .absent⟩
  complete := by
    intro marker run value rest ended written stops
    unfold optionally
    rw [peek_bind, kind_headD ended]
    cases written with
    | absent =>
        rw [List.nil_append, if_neg stops.1]
        rfl
    | present written =>
        obtain ⟨token, behind, rfl, same⟩ := opens written
        rw [List.cons_append, kindAhead_cons, if_pos same, skip_bind, List.tail_cons,
          List.headD_cons, (reads token same).bind_of ended written stops.2]
        rfl

end Choice

section Repetition

variable {separator : Kind} {phrase : Parse α} {spelled : List Token → α → Prop}
  {ends : Kind → Prop} {run : List Token} {values : List α}

theorem length_le_of_further (others : Grammar.Further separator spelled run values) :
    values.length ≤ run.length := by
  induction others with
  | none => exact Nat.le_refl 0
  | more sort next others ih =>
      simp only [List.length_cons, List.length_append]
      omega

theorem kindAhead_further (others : Grammar.Further separator spelled run values)
    (separated : ends separator) (stops : ends (kindAhead rest)) :
    ends (kindAhead (run ++ rest)) := by
  cases others with
  | none => exact stops
  | more sort next others => rwa [List.cons_append, kindAhead_cons, sort]

theorem further_sound (reads : Reads phrase spelled ends) (inText : separator ≠ .endOfText)
    (ended : marker.kind = .endOfText) {bound : Nat}
    (read : furtherUpTo separator phrase bound marker tokens = .ok (values, rest)) :
    ∃ run, tokens = run ++ rest ∧ Grammar.Further separator spelled run values := by
  induction bound generalizing tokens values rest with
  | zero =>
      obtain ⟨rfl, rfl⟩ := pure_eq_ok_iff.mp read
      exact ⟨[], rfl, .none⟩
  | succ bound ih =>
      unfold furtherUpTo at read
      rcases accept_bind_cases ended inText read with
        ⟨token, behind, rfl, sort, later⟩ | ⟨_, later⟩
      · rw [if_pos rfl] at later
        obtain ⟨first, behind, value, rfl, written, later⟩ := reads.bind_cases ended later
        obtain ⟨others, _, more, last⟩ := bind_eq_ok later
        obtain ⟨second, rfl, further⟩ := ih more
        obtain ⟨rfl, rfl⟩ := pure_eq_ok_iff.mp last
        exact ⟨token :: (first ++ second), by simp, .more sort written further⟩
      · obtain ⟨rfl, rfl⟩ := pure_eq_ok_iff.mp later
        exact ⟨[], rfl, .none⟩

theorem further_complete (reads : Reads phrase spelled ends) (separated : ends separator)
    (ended : marker.kind = .endOfText)
    (written : Grammar.Further separator spelled run values) {bound : Nat}
    (enough : values.length ≤ bound) (other : kindAhead rest ≠ separator)
    (stops : ends (kindAhead rest)) :
    furtherUpTo separator phrase bound marker (run ++ rest) = .ok (values, rest) := by
  induction written generalizing bound with
  | none =>
      cases bound with
      | zero => rfl
      | succ bound =>
          unfold furtherUpTo
          rw [List.nil_append, accept_bind_of_ne ended other]
          rfl
  | more sort next others ih =>
      cases bound with
      | zero => contradiction
      | succ bound =>
          unfold furtherUpTo
          rw [List.cons_append, accept_bind_of_kind sort, if_pos rfl, List.append_assoc,
            reads.bind_of ended next (kindAhead_further others separated stops),
            bind_of_ok (ih (Nat.le_of_succ_le_succ enough))]
          rfl

/-- Phrases between separators, first and others apart as the reader returns them. -/
theorem reads_separated (reads : Reads phrase spelled ends) (inText : separator ≠ .endOfText)
    (separated : ends separator) :
    Reads (Parse.separated separator phrase)
      (fun run values => Grammar.Separated separator spelled run (values.1 :: values.2))
      (fun kind => kind ≠ separator ∧ ends kind) where
  sound := by
    intro marker tokens values rest ended read
    unfold Parse.separated at read
    obtain ⟨first, behind, value, rfl, written, later⟩ := reads.bind_cases ended read
    rw [get_bind] at later
    obtain ⟨others, _, more, last⟩ := bind_eq_ok later
    obtain ⟨second, rfl, further⟩ := further_sound reads inText ended more
    obtain ⟨rfl, rfl⟩ := pure_eq_ok_iff.mp last
    exact ⟨first ++ second, by simp, .mk written further⟩
  complete := by
    intro marker run pair rest ended written finished
    obtain ⟨value, others⟩ := pair
    obtain ⟨other, stops⟩ := finished
    cases written with
    | mk first further =>
        unfold Parse.separated
        have enough := length_le_of_further further
        rw [List.append_assoc,
          reads.bind_of ended first (kindAhead_further further separated stops), get_bind,
          bind_of_ok (further_complete reads separated ended further
            (by rw [List.length_append]; omega) other stops)]
        rfl

theorem reads_listed (reads : Reads phrase spelled ends) (inText : separator ≠ .endOfText)
    (separated : ends separator) :
    Reads (listed separator phrase) (Grammar.Separated separator spelled)
      (fun kind => kind ≠ separator ∧ ends kind) where
  sound := by
    intro marker tokens values rest ended read
    unfold listed at read
    obtain ⟨run, _, values, rfl, written, later⟩ :=
      (reads_separated reads inText separated).bind_cases ended read
    obtain ⟨rfl, rfl⟩ := pure_eq_ok_iff.mp later
    exact ⟨run, rfl, written⟩
  complete := by
    intro marker run values rest ended written stops
    unfold listed
    cases written with
    | @mk first second value values written others =>
        have read : Parse.separated separator phrase marker (first ++ second ++ rest) =
            .ok ((value, values), rest) :=
          (reads_separated reads inText separated).complete ended (.mk written others) stops
        rw [bind_of_ok read]
        rfl

end Repetition

end DocumentGraph.Query.Parse
