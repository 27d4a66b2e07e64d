import DocumentGraph.Proofs.Query.Phrase

namespace DocumentGraph.Query.Parse

/-! Reading without a look behind the first end mark.

`Alike` relates two states of the reader that hold the same tokens in front of their first end
marks.  Behind those marks anything may stand, and where a mark is missing the marker stands in
for it.  A `Blind` phrase reads the same from both states and leaves two such states behind; in
particular it never passes an end mark.  A repetition of blind rounds then ends before it has
taken more rounds than there are tokens in front of the mark, so that it is never its bound that
ends it.
-/

variable {α β : Type} {marker other : Token} {size : Nat} {left right : List Token}

/-- The same `size` tokens, none of which is an end mark, and then two end marks at one place. -/
inductive Alike (marker other : Token) : Nat → List Token → List Token → Prop where
  | ended {left right : List Token} (first : (left.headD marker).kind = .endOfText)
      (second : (right.headD other).kind = .endOfText)
      (place : (left.headD marker).position = (right.headD other).position) :
      Alike marker other 0 left right
  | token {token : Token} {size : Nat} {left right : List Token}
      (inText : token.kind ≠ .endOfText) (behind : Alike marker other size left right) :
      Alike marker other (size + 1) (token :: left) (token :: right)

/-- The same error, or the same value in front of at most `size` tokens. -/
inductive Agree (marker other : Token) (size : Nat) :
    Except QueryError (α × List Token) → Except QueryError (α × List Token) → Prop where
  | refused (error : QueryError) : Agree marker other size (.error error) (.error error)
  | read (value : α) {count : Nat} {left right : List Token} (fewer : count ≤ size)
      (behind : Alike marker other count left right) :
      Agree marker other size (.ok (value, left)) (.ok (value, right))

/-- The phrase sees nothing behind an end mark, and nothing of the mark but its place. -/
def Blind (phrase : Parse α) : Prop :=
  ∀ ⦃marker other size left right⦄, Alike marker other size left right →
    Agree marker other size (phrase marker left) (phrase other right)

/-- A round of a repetition: it reads nothing at all, or at least one token. -/
def BlindRound (round : Parse (Option α)) : Prop :=
  ∀ ⦃marker other size left right⦄, Alike marker other size left right →
    (round marker left = .ok (none, left) ∧ round other right = .ok (none, right)) ∨
    ∃ fewer, size = fewer + 1 ∧ Agree marker other fewer (round marker left) (round other right)

theorem alike_append {tokens : List Token} (inText : ∀ token ∈ tokens, token.kind ≠ .endOfText)
    (ends : Alike marker other 0 left right) :
    Alike marker other tokens.length (tokens ++ left) (tokens ++ right) := by
  induction tokens with
  | nil => exact ends
  | cons token tokens ih =>
      obtain ⟨sort, inText⟩ := List.forall_mem_cons.mp inText
      exact .token sort (ih inText)

theorem alike_self (ended : marker.kind = .endOfText) (tokens : List Token) :
    ∃ size ≤ tokens.length, Alike marker marker size tokens tokens := by
  induction tokens with
  | nil => exact ⟨0, Nat.le_refl 0, .ended ended ended rfl⟩
  | cons token tokens ih =>
      by_cases sort : token.kind = .endOfText
      · exact ⟨0, Nat.zero_le _, .ended sort sort rfl⟩
      · obtain ⟨size, within, behind⟩ := ih
        exact ⟨size + 1, Nat.succ_le_succ within, .token sort behind⟩

theorem Alike.size_le (alike : Alike marker other size left right) :
    size ≤ left.length ∧ size ≤ right.length := by
  induction alike with
  | ended first second place => exact ⟨Nat.zero_le _, Nat.zero_le _⟩
  | token inText behind ih => exact ⟨Nat.succ_le_succ ih.1, Nat.succ_le_succ ih.2⟩

theorem kind_headD_eq (alike : Alike marker other size left right) :
    (left.headD marker).kind = (right.headD other).kind := by
  cases alike with
  | ended first second place => rw [first, second]
  | token inText behind => rfl

theorem Alike.kindAhead_eq (alike : Alike marker other size left right) :
    kindAhead left = kindAhead right := by
  have atEnd {tokens : List Token} {mark : Token} (ended : (tokens.headD mark).kind = .endOfText) :
      kindAhead tokens = .endOfText := by
    cases tokens with
    | nil => rfl
    | cons token tokens => exact ended
  cases alike with
  | ended first second place => rw [atEnd first, atEnd second]
  | token inText behind => rfl

theorem Agree.mono {first second : Except QueryError (α × List Token)} {more : Nat}
    (agree : Agree marker other size first second) (within : size ≤ more) :
    Agree marker other more first second := by
  cases agree with
  | refused error => exact .refused error
  | read value fewer behind => exact .read value (Nat.le_trans fewer within) behind

/-- What is left apart, two states that read alike give the same result. -/
theorem Agree.map_fst {first second : Except QueryError (α × List Token)}
    (agree : Agree marker other size first second) :
    first.map Prod.fst = second.map Prod.fst := by
  cases agree with
  | refused error => rfl
  | read value fewer behind => rfl

theorem Agree.bind {first second : Parse α} {next later : α → Parse β}
    (agree : Agree marker other size (first marker left) (second other right))
    (further : ∀ value ⦃count left right⦄, count ≤ size → Alike marker other count left right →
      Agree marker other count (next value marker left) (later value other right)) :
    Agree marker other size ((first >>= next) marker left) ((second >>= later) other right) := by
  change Agree marker other size
    ((first marker left).bind fun (value, middle) => next value marker middle)
    ((second other right).bind fun (value, middle) => later value other middle)
  generalize first marker left = one at agree
  generalize second other right = two at agree
  cases agree with
  | refused error => exact .refused error
  | read value fewer behind => exact (further value fewer behind).mono fewer

theorem Blind.bind {phrase : Parse α} {next : α → Parse β} (first : Blind phrase)
    (later : ∀ value, Blind (next value)) : Blind (phrase >>= next) :=
  fun _ _ _ _ _ alike => (first alike).bind fun value _ _ _ _ behind => later value behind

theorem blind_pure (value : α) : Blind (pure value) :=
  fun _ _ _ _ _ alike => .read value (Nat.le_refl _) alike

theorem blind_throw (error : QueryError) : Blind (throw error : Parse α) :=
  fun _ _ _ _ _ _ => .refused error

theorem Blind.ite {condition : Prop} [Decidable condition] {first second : Parse α}
    (one : Blind first) (two : Blind second) : Blind (if condition then first else second) := by
  split
  · exact one
  · exact two

/-- The phrase is blind where this token is the next one. -/
def BlindAt (token : Token) (phrase : Parse α) : Prop :=
  ∀ ⦃marker other size left right⦄, Alike marker other size left right →
    Agree marker other (size + 1) (phrase marker (token :: left)) (phrase other (token :: right))

theorem Blind.at {phrase : Parse α} (blind : Blind phrase) {token : Token}
    (inText : token.kind ≠ .endOfText) : BlindAt token phrase :=
  fun _ _ _ _ _ behind => blind (.token inText behind)

theorem Blind.skip {phrase : Parse α} (blind : Blind phrase) (token : Token) :
    BlindAt token (skip >>= fun _ => phrase) :=
  fun _ _ _ _ _ behind => (blind behind).mono (Nat.le_succ _)

/-- After a look at the next token.  A token of the text is the same for both states, an end mark
only stands at the same place. -/
theorem blind_peek {next : Token → Parse β}
    (atToken : ∀ token, token.kind ≠ .endOfText → BlindAt token (next token))
    (atEnd : ∀ first second : Token, first.kind = .endOfText → second.kind = .endOfText →
      first.position = second.position → next first = next second ∧ Blind (next second)) :
    Blind (peek >>= next) := by
  intro marker other size left right alike
  rw [peek_bind, peek_bind]
  cases alike with
  | ended first second place =>
      obtain ⟨same, blind⟩ := atEnd _ _ first second place
      rw [same]
      exact blind (.ended first second place)
  | token inText behind => exact atToken _ inText behind

/-- Where nothing is passed, only the place of the next token may count. -/
theorem blind_place {next : Token → Parse β} (blind : ∀ token, Blind (next token))
    (same : ∀ first second : Token, first.position = second.position →
      next first = next second) : Blind (peek >>= next) :=
  blind_peek (fun token inText => (blind token).at inText)
    fun first second _ _ place => ⟨same first second place, blind second⟩

theorem describe_endOfText {token : Token} (sort : token.kind = .endOfText) :
    token.describe = "end of input" := by
  unfold Token.describe
  rw [sort]

/-- An error may describe the next token, since all end marks are described alike. -/
theorem blind_throwAt (error : String → Position → QueryError) :
    Blind (do let found ← peek; throw (error found.describe found.position) : Parse α) := by
  refine blind_peek (fun _ inText => (blind_throw _).at inText) ?_
  intro first second atEnd alsoAtEnd place
  rw [describe_endOfText atEnd, describe_endOfText alsoAtEnd, place]
  exact ⟨rfl, blind_throw _⟩

theorem blind_reject (expected : String) : Blind (reject expected : Parse α) :=
  blind_throwAt (.unexpectedToken expected)

theorem blind_accept {kind : Kind} (inText : kind ≠ .endOfText) : Blind (accept kind) := by
  refine blind_peek (fun token sort => ?_) ?_
  · split
    · exact (blind_pure true).skip token
    · exact (blind_pure false).at sort
  · intro first second atEnd alsoAtEnd _
    rw [if_neg (by rw [atEnd]; exact inText.symm), if_neg (by rw [alsoAtEnd]; exact inText.symm)]
    exact ⟨rfl, blind_pure false⟩

theorem blind_expect {kind : Kind} (inText : kind ≠ .endOfText) : Blind (expect kind) :=
  (blind_accept inText).bind fun _ => (blind_pure ()).ite (blind_reject _)

/-- Rounds until one reads nothing. -/
def roundsUpTo (round : Parse (Option α)) : Nat → Parse (List α)
  | 0 => return []
  | bound + 1 => do
      match ← round with
      | some value => return value :: (← roundsUpTo round bound)
      | none => return []

/-- The same repetition without a bound, as it runs to its end. -/
inductive Loop (round : Parse (Option α)) (marker : Token) :
    List Token → Except QueryError (List α × List Token) → Prop where
  | done {tokens rest : List Token} (stops : round marker tokens = .ok (none, rest)) :
      Loop round marker tokens (.ok ([], rest))
  | failed {tokens : List Token} {error : QueryError}
      (refused : round marker tokens = .error error) : Loop round marker tokens (.error error)
  | again {tokens middle : List Token} {value : α}
      {outcome : Except QueryError (List α × List Token)}
      (taken : round marker tokens = .ok (some value, middle))
      (further : Loop round marker middle outcome) :
      Loop round marker tokens (outcome.map fun (values, rest) => (value :: values, rest))

/-- The bound of the loop is never what ends it. -/
def Settles (round : Parse (Option α)) (loop : Parse (List α)) : Prop :=
  ∀ marker tokens, marker.kind = .endOfText → Loop round marker tokens (loop marker tokens)

section Rounds

variable {round : Parse (Option α)}

theorem blind_optionally {opening : Kind} {phrase : Token → Parse α}
    (inText : opening ≠ .endOfText) (blind : ∀ token, Blind (phrase token)) :
    BlindRound (optionally opening phrase) := by
  intro marker other size left right alike
  unfold optionally
  rw [peek_bind, peek_bind, kind_headD_eq alike]
  split
  · rename_i sort
    cases alike with
    | ended first second place => exact absurd (second.symm.trans sort).symm inText
    | token _ behind =>
        exact .inr ⟨_, rfl, ((blind _).bind fun value => blind_pure (some value)) behind⟩
  · exact .inl ⟨rfl, rfl⟩

theorem BlindRound.blind (blind : BlindRound round) : Blind round := by
  intro marker other size left right alike
  rcases blind alike with ⟨first, second⟩ | ⟨fewer, rfl, agree⟩
  · rw [first, second]
    exact .read none (Nat.le_refl _) alike
  · exact agree.mono (Nat.le_succ _)

theorem roundsUpTo_of_none {tokens rest : List Token} {bound : Nat}
    (stops : round marker tokens = .ok (none, rest)) :
    roundsUpTo round (bound + 1) marker tokens = .ok ([], rest) := by
  unfold roundsUpTo
  rw [bind_of_ok stops]
  rfl

theorem roundsUpTo_of_error {tokens : List Token} {bound : Nat} {error : QueryError}
    (refused : round marker tokens = .error error) :
    roundsUpTo round (bound + 1) marker tokens = .error error := by
  change (round marker tokens).bind _ = _
  rw [refused]
  rfl

theorem roundsUpTo_of_some {tokens middle : List Token} {bound : Nat} {value : α}
    (taken : round marker tokens = .ok (some value, middle)) :
    roundsUpTo round (bound + 1) marker tokens =
      (roundsUpTo round bound marker middle).map
        fun (values, rest) => (value :: values, rest) := by
  conv_lhs => unfold roundsUpTo
  rw [bind_of_ok taken]
  change (roundsUpTo round bound marker middle).bind _ = _
  cases roundsUpTo round bound marker middle with
  | error error => rfl
  | ok outcome => rfl

/-- A repetition that takes no token needs no bound. -/
theorem roundsUpTo_of_stops {tokens : List Token}
    (stops : round marker tokens = .ok (none, tokens)) (bound : Nat) :
    roundsUpTo round bound marker tokens = .ok ([], tokens) := by
  cases bound with
  | zero => rfl
  | succ bound => exact roundsUpTo_of_none stops

/-- Two bounds that are large enough have the same effect. -/
theorem BlindRound.rounds (blind : BlindRound round) {bound more : Nat}
    (alike : Alike marker other size left right) (enough : size ≤ bound) (also : size ≤ more) :
    Agree marker other size (roundsUpTo round bound marker left)
      (roundsUpTo round more other right) := by
  induction bound generalizing size more left right with
  | zero =>
      rcases blind alike with ⟨first, second⟩ | ⟨fewer, rfl, _⟩
      · rw [roundsUpTo_of_stops first, roundsUpTo_of_stops second]
        exact .read [] (Nat.le_refl _) alike
      · contradiction
  | succ bound ih =>
      rcases blind alike with ⟨first, second⟩ | ⟨fewer, rfl, agree⟩
      · rw [roundsUpTo_of_stops first, roundsUpTo_of_stops second]
        exact .read [] (Nat.le_refl _) alike
      · obtain ⟨more, rfl⟩ := Nat.exists_eq_succ_of_ne_zero (Nat.ne_zero_of_lt also)
        refine Agree.mono (agree.bind fun value count left right within behind => ?_)
          (Nat.le_succ _)
        cases value with
        | none => exact .read [] (Nat.le_refl _) behind
        | some value =>
            have others := ih behind (by omega) (by omega : count ≤ more)
            exact others.bind fun values _ _ _ _ behind => blind_pure (value :: values) behind

theorem BlindRound.loop (blind : BlindRound round) {tokens : List Token} {bound : Nat}
    (alike : Alike marker marker size tokens tokens) (enough : size ≤ bound) :
    Loop round marker tokens (roundsUpTo round bound marker tokens) := by
  induction bound generalizing size tokens with
  | zero =>
      rcases blind alike with ⟨stops, _⟩ | ⟨fewer, rfl, _⟩
      · exact .done stops
      · contradiction
  | succ bound ih =>
      cases outcome : round marker tokens with
      | error error =>
          rw [roundsUpTo_of_error outcome]
          exact .failed outcome
      | ok result =>
          obtain ⟨_ | value, middle⟩ := result
          · rw [roundsUpTo_of_none outcome]
            exact .done outcome
          · rcases blind alike with ⟨stops, _⟩ | ⟨fewer, rfl, agree⟩
            · cases outcome.symm.trans stops
            · rw [outcome] at agree
              cases agree with
              | read value fewer behind =>
                  rw [roundsUpTo_of_some outcome]
                  exact .again outcome (ih behind (by omega))

theorem BlindRound.blind_rounds (blind : BlindRound round) :
    Blind (do roundsUpTo round (← get).length) := by
  intro marker other size left right alike
  rw [get_bind, get_bind]
  exact blind.rounds alike alike.size_le.1 alike.size_le.2

theorem BlindRound.settles (blind : BlindRound round) :
    Settles round (do roundsUpTo round (← get).length) := by
  intro marker tokens ended
  rw [get_bind]
  obtain ⟨size, within, alike⟩ := alike_self ended tokens
  exact blind.loop alike within

end Rounds

/-- Further phrases are rounds that a separator opens. -/
theorem furtherUpTo_eq_roundsUpTo (separator : Kind) (phrase : Parse α) (bound : Nat) :
    furtherUpTo separator phrase bound =
      roundsUpTo (optionally separator fun _ => phrase) bound := by
  induction bound with
  | zero => rfl
  | succ bound ih =>
      unfold furtherUpTo roundsUpTo optionally accept
      rw [ih]
      simp only [bind_assoc]
      refine congrArg _ (funext fun token => ?_)
      split
      · simp only [bind_assoc, pure_bind]
        rfl
      · simp only [pure_bind]
        rfl

end DocumentGraph.Query.Parse
