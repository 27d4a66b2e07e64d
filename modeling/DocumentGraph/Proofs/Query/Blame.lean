import DocumentGraph.Proofs.Query.Phrase

namespace DocumentGraph.Query

/-! Where an error of the reader stands.

A run of tokens is `Viable` for a phrase if more tokens can make it spell the phrase.  A reader
`Blames` rightly if all that stands in front of the place of its error is viable, whatever error it
is; only an expression that is nested too deeply is refused for what has been read already.
-/

/-- Negations and parentheses are nested so deeply that no comparison may follow. -/
def QueryError.TooDeep (error : QueryError) : Prop :=
  ∃ found position, error = .unexpectedToken "a less deeply nested expression" found position

namespace Parse

variable {α β γ : Type} {marker : Token} {tokens rest run done : List Token} {kind : Kind}
  {error : QueryError}

/-- More tokens make a phrase of the run. -/
def Viable (spelled : List Token → α → Prop) (run : List Token) : Prop :=
  ∃ more value, spelled (run ++ more) value

/-- After `done` has been read, the tokens in front of the place of an error are viable. -/
def Blames (spelled : List Token → α → Prop) (done : List Token) (phrase : Parse β) : Prop :=
  ∀ ⦃marker tokens error⦄, marker.kind = .endOfText → phrase marker tokens = .error error →
    error.TooDeep ∨ ∃ front behind, done ++ tokens = front ++ behind ∧
      error.location = some (behind.headD marker).position ∧ Viable spelled front

/-- What has been read is viable, and so is what stands in front of a later error. -/
structure Steers (spelled : List Token → α → Prop) (done : List Token) (phrase : Parse β) :
    Prop where
  viable : Viable spelled done
  blames : Blames spelled done phrase

/-- The phrase is only read from tokens that spell it. -/
def Sound (phrase : Parse α) (spelled : List Token → α → Prop) : Prop :=
  ∀ ⦃marker tokens value rest⦄, marker.kind = .endOfText →
    phrase marker tokens = .ok (value, rest) → ∃ run, tokens = run ++ rest ∧ spelled run value

/-- A token that spells its kind: as a whole number it is in every range. -/
def sample (kind : Kind) : Token :=
  { kind, text := "0", position := {} }

variable {spelled : List Token → α → Prop}

theorem viable_of {value : α} (written : spelled run value) : Viable spelled run :=
  ⟨[], value, by rwa [List.append_nil]⟩

theorem Viable.front (viable : Viable spelled (run ++ rest)) : Viable spelled run := by
  obtain ⟨more, value, written⟩ := viable
  exact ⟨rest ++ more, value, by rwa [← List.append_assoc]⟩

theorem Reads.isSound {phrase : Parse α} {ends : Kind → Prop} (reads : Reads phrase spelled ends) :
    Sound phrase spelled :=
  fun _ _ _ _ ended read => reads.sound ended read

theorem bind_eq_error {phrase : Parse β} {later : β → Parse γ}
    (failed : (phrase >>= later) marker tokens = .error error) :
    phrase marker tokens = .error error ∨
    ∃ value middle, phrase marker tokens = .ok (value, middle) ∧
      later value marker middle = .error error := by
  change (phrase marker tokens).bind
    (fun (value, middle) => later value marker middle) = _ at failed
  cases first : phrase marker tokens with
  | error reason =>
      rw [first] at failed
      obtain rfl := Except.error.inj failed
      exact .inl rfl
  | ok outcome =>
      rw [first] at failed
      exact .inr ⟨outcome.1, outcome.2, rfl, failed⟩

theorem blames_pure (value : β) : Blames spelled done (pure value) := by
  intro marker tokens error ended failed
  contradiction

theorem Blames.ite {condition : Prop} [Decidable condition] {first second : Parse β}
    (one : Blames spelled done first) (two : Blames spelled done second) :
    Blames spelled done (if condition then first else second) := by
  split
  · exact one
  · exact two

theorem steers_pure (viable : Viable spelled done) (value : β) :
    Steers spelled done (pure value) :=
  ⟨viable, blames_pure value⟩

/-- An error may blame a token that has been read already. -/
theorem blames_throw {front behind : List Token} {token : Token} {fault : QueryError}
    (viable : Viable spelled front) (located : fault.location = some token.position) :
    Blames spelled (front ++ token :: behind) (throw fault : Parse β) := by
  intro marker tokens error ended failed
  obtain rfl := Except.error.inj failed
  exact .inr ⟨front, token :: (behind ++ tokens), by simp, located, viable⟩

theorem steers_throwAt (fault : Token → QueryError) (viable : Viable spelled done)
    (located : ∀ token, (fault token).location = some token.position) :
    Steers spelled done (do let found ← peek; throw (fault found) : Parse β) := by
  refine ⟨viable, ?_⟩
  intro marker tokens error ended failed
  obtain rfl := Except.error.inj failed
  exact .inr ⟨done, tokens, rfl, located _, viable⟩

theorem steers_reject (viable : Viable spelled done) (expected : String) :
    Steers spelled done (reject expected : Parse β) :=
  steers_throwAt _ viable fun _ => rfl

/-- What is viable for a part is viable for the whole, in which the part stands behind `done`. -/
theorem Blames.lift {inner : List Token → γ → Prop} {phrase : Parse β}
    (blames : Blames inner run phrase)
    (whole : ∀ ⦃run value⦄, inner run value → Viable spelled (done ++ run)) :
    Blames spelled (done ++ run) phrase := by
  intro marker tokens error ended failed
  rcases blames ended failed with deep | ⟨front, behind, split, place, more, value, written⟩
  · exact .inl deep
  · refine .inr ⟨done ++ front, behind, ?_, place, ?_⟩
    · rw [List.append_assoc, List.append_assoc, split]
    · have viable := whole written
      rw [← List.append_assoc] at viable
      exact viable.front

theorem Blames.mono {inner : List Token → γ → Prop} {phrase : Parse β}
    (blames : Blames inner done phrase)
    (whole : ∀ ⦃run value⦄, inner run value → Viable spelled run) : Blames spelled done phrase := by
  have lifted : Blames spelled ([] ++ done) phrase := blames.lift whole
  exact lifted

theorem Steers.mono {inner : List Token → γ → Prop} {phrase : Parse β}
    (steers : Steers inner done phrase)
    (whole : ∀ ⦃run value⦄, inner run value → Viable spelled run) :
    Steers spelled done phrase := by
  refine ⟨?_, steers.blames.mono whole⟩
  obtain ⟨more, value, written⟩ := steers.viable
  exact (whole written).front

theorem Blames.bind_of {phrase : Parse β} {later : β → Parse γ}
    (first : Blames spelled done phrase)
    (further : ∀ ⦃marker tokens value rest⦄, marker.kind = .endOfText →
      phrase marker tokens = .ok (value, rest) →
      ∃ run, tokens = run ++ rest ∧ Blames spelled (done ++ run) (later value)) :
    Blames spelled done (phrase >>= later) := by
  intro marker tokens error ended failed
  rcases bind_eq_error failed with refused | ⟨value, middle, read, refused⟩
  · exact first ended refused
  · obtain ⟨run, rfl, blames⟩ := further ended read
    rw [← List.append_assoc]
    exact blames ended refused

theorem Blames.map {phrase : Parse β} (blames : Blames spelled done phrase) (f : β → γ) :
    Blames spelled done (phrase >>= fun value => pure (f value)) := by
  intro marker tokens error ended failed
  rcases bind_eq_error failed with refused | ⟨value, middle, _, refused⟩
  · exact blames ended refused
  · contradiction

section Bind

variable {inner : List Token → β → Prop} {phrase : Parse β} {later : β → Parse γ}

theorem Blames.bind (first : Blames inner [] phrase) (sound : Sound phrase inner)
    (further : ∀ ⦃run value⦄, inner run value → Steers spelled (done ++ run) (later value)) :
    Blames spelled done (phrase >>= later) := by
  have whole : Blames spelled (done ++ []) phrase :=
    first.lift fun _ _ written => (further written).viable
  rw [List.append_nil] at whole
  refine whole.bind_of fun marker tokens value rest ended read => ?_
  obtain ⟨run, split, written⟩ := sound ended read
  exact ⟨run, split, (further written).blames⟩

theorem Steers.bind (first : Steers inner [] phrase) (sound : Sound phrase inner)
    (further : ∀ ⦃run value⦄, inner run value → Steers spelled (done ++ run) (later value)) :
    Steers spelled done (phrase >>= later) := by
  refine ⟨?_, first.blames.bind sound further⟩
  obtain ⟨more, value, written⟩ := first.viable
  exact (further written).viable.front

end Bind

/-- The same where this token is the next one. -/
def BlamesAt (spelled : List Token → α → Prop) (done : List Token) (token : Token)
    (phrase : Parse β) : Prop :=
  ∀ ⦃marker tokens error⦄, marker.kind = .endOfText →
    phrase marker (token :: tokens) = .error error →
    error.TooDeep ∨ ∃ front behind, done ++ token :: tokens = front ++ behind ∧
      error.location = some (behind.headD marker).position ∧ Viable spelled front

theorem Blames.at {phrase : Parse β} (blames : Blames spelled done phrase) (token : Token) :
    BlamesAt spelled done token phrase :=
  fun _ _ _ ended failed => blames ended failed

theorem Blames.skip {phrase : Parse β} {token : Token}
    (blames : Blames spelled (done ++ [token]) phrase) :
    BlamesAt spelled done token (skip >>= fun _ => phrase) := by
  intro marker tokens error ended failed
  have found := blames ended failed
  rwa [List.append_assoc, List.singleton_append] at found

section Lookahead

variable {later : Token → Parse β}

theorem blames_peek (atToken : ∀ token, BlamesAt spelled done token (later token))
    (atEnd : ∀ token, token.kind = .endOfText → Blames spelled done (later token)) :
    Blames spelled done (peek >>= later) := by
  intro marker tokens error ended failed
  rw [peek_bind] at failed
  cases tokens with
  | nil => exact atEnd marker ended ended failed
  | cons token tokens => exact atToken token ended failed

theorem steers_peek (further : ∀ token, Steers spelled done (later token)) :
    Steers spelled done (peek >>= later) :=
  ⟨(further (sample .endOfText)).viable,
    blames_peek (fun token => (further token).blames.at token)
      fun token _ => (further token).blames⟩

theorem steers_get {later : List Token → Parse β}
    (further : ∀ ahead, Steers spelled done (later ahead)) :
    Steers spelled done (get >>= later) :=
  ⟨(further []).viable, fun _ tokens _ ended failed => (further tokens).blames ended failed⟩

end Lookahead

section Accept

variable {later : Bool → Parse β}

theorem blames_accept_bind (inText : kind ≠ .endOfText)
    (taken : ∀ token, token.kind = kind → Blames spelled (done ++ [token]) (later true))
    (refused : Blames spelled done (later false)) :
    Blames spelled done (accept kind >>= later) := by
  intro marker tokens error ended failed
  by_cases sort : kindAhead tokens = kind
  · obtain ⟨token, behind, rfl, same⟩ := exists_of_kindAhead sort inText
    rw [accept_bind_of_kind same] at failed
    have found := taken token same ended failed
    rwa [List.append_assoc, List.singleton_append] at found
  · rw [accept_bind_of_ne ended sort] at failed
    exact refused ended failed

theorem steers_accept_bind (inText : kind ≠ .endOfText)
    (taken : ∀ token, token.kind = kind → Blames spelled (done ++ [token]) (later true))
    (refused : Steers spelled done (later false)) : Steers spelled done (accept kind >>= later) :=
  ⟨refused.viable, blames_accept_bind inText taken refused.blames⟩

/-- A token that must be there: without it the error stands where it is missing. -/
theorem steers_unless_bind {fail : Parse Unit} {later : Unit → Parse β}
    (inText : kind ≠ .endOfText)
    (fails : ∀ {done : List Token}, Viable spelled done → Blames spelled done (fail >>= later))
    (taken : ∀ token, token.kind = kind → Steers spelled (done ++ [token]) (later ())) :
    Steers spelled done ((do unless ← accept kind do fail) >>= later) := by
  have viable : Viable spelled done := (taken (sample kind) rfl).viable.front
  rw [bind_assoc]
  exact steers_accept_bind inText (fun token sort => (taken token sort).blames)
    ⟨viable, fails viable⟩

theorem steers_expect_bind {later : Unit → Parse β} (inText : kind ≠ .endOfText)
    (taken : ∀ token, token.kind = kind → Steers spelled (done ++ [token]) (later ())) :
    Steers spelled done (expect kind >>= later) :=
  steers_unless_bind inText (fun viable => (steers_reject viable kind.description).blames) taken

end Accept

theorem steers_optionally {opening : Kind} {phrase : Token → Parse α}
    (inText : opening ≠ .endOfText)
    (blames : ∀ token, token.kind = opening → Blames spelled [token] (phrase token)) :
    Steers (Grammar.Optional spelled) [] (optionally opening phrase) := by
  refine ⟨viable_of .absent, blames_peek (fun token => ?_) fun token atEnd => ?_⟩
  · split
    · rename_i sort
      have taken : Blames (Grammar.Optional spelled) ([] ++ [token]) (phrase token) :=
        (blames token sort).lift fun _ _ written => viable_of (.present written)
      exact (taken.map some).skip
    · exact (blames_pure none).at token
  · rw [if_neg (by rw [atEnd]; exact inText.symm)]
    exact blames_pure none

section Repetition

variable {separator : Kind} {phrase : Parse β} {inner : List Token → β → Prop}

theorem steers_further (inText : separator ≠ .endOfText) (blames : Blames inner [] phrase)
    (sound : Sound phrase inner) {done : List Token}
    (whole : ∀ ⦃run values⦄, Grammar.Further separator inner run values →
      Viable spelled (done ++ run)) (bound : Nat) :
    Steers spelled done (furtherUpTo separator phrase bound) := by
  have viable {done : List Token} (whole : ∀ ⦃run values⦄,
      Grammar.Further separator inner run values → Viable spelled (done ++ run)) :
      Viable spelled done := (whole .none).front
  refine ⟨viable whole, ?_⟩
  induction bound generalizing done with
  | zero => exact blames_pure []
  | succ bound ih =>
      refine blames_accept_bind inText (fun token sort => ?_) (blames_pure [])
      refine blames.bind sound fun run value written => ?_
      have longer : ∀ ⦃behind values⦄, Grammar.Further separator inner behind values →
          Viable spelled (done ++ [token] ++ run ++ behind) := by
        intro behind values others
        simpa using whole (.more sort written others)
      exact ⟨viable longer, (ih longer).map _⟩

theorem blames_separated (inText : separator ≠ .endOfText) (blames : Blames inner [] phrase)
    (sound : Sound phrase inner) :
    Blames (Grammar.Separated separator inner) [] (separated separator phrase) := by
  refine blames.bind sound fun run value written => steers_get fun ahead => ?_
  have whole : ∀ ⦃behind values⦄, Grammar.Further separator inner behind values →
      Viable (Grammar.Separated separator inner) (run ++ behind) :=
    fun _ _ others => viable_of (.mk written others)
  have further := steers_further inText blames sound whole ahead.length
  exact ⟨further.viable, further.blames.map _⟩

theorem steers_listed (inText : separator ≠ .endOfText) (first : Steers inner [] phrase)
    (sound : Sound phrase inner) :
    Steers (Grammar.Separated separator inner) [] (listed separator phrase) := by
  refine ⟨?_, (blames_separated inText first.blames sound).map _⟩
  obtain ⟨more, value, written⟩ := first.viable
  have single : Grammar.Separated separator inner (more ++ []) [value] := .mk written .none
  exact (viable_of single).front.front

end Repetition

end Parse

end DocumentGraph.Query
