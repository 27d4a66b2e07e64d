import DocumentGraph.Proofs.Query.Names

namespace DocumentGraph.Query.Parse

/-! Reading patterns. -/

variable {marker : Token} {tokens rest : List Token}

theorem reads_propertyPair : Reads propertyPair Grammar.PropertyPair always where
  sound := by
    intro marker tokens value rest ended read
    unfold propertyPair at read
    obtain ⟨first, _, key, rfl, named, read⟩ := (reads_name _).bind_cases ended read
    obtain ⟨colon, _, rfl, mark, read⟩ := expect_bind_cases ended (by simp) read
    obtain ⟨found, _, literal, last⟩ := bind_eq_ok read
    rcases literal?_cases ended literal with ⟨value, token, rfl, rfl, written⟩ | ⟨rfl, _⟩
    · obtain ⟨rfl, rfl⟩ := pure_eq_ok_iff.mp last
      exact ⟨first ++ [colon, token], by simp, .mk named mark written⟩
    · simp at last
  complete := by
    intro marker run value rest ended written stops
    unfold propertyPair
    cases written with
    | mk named mark written =>
        rw [List.append_assoc, (reads_name _).bind_of ended named trivial, List.cons_append,
          expect_bind_of_kind mark, bind_of_ok (literal?_complete written)]
        rfl

theorem opens_propertyMap : Opens (.symbol .leftBrace) Grammar.PropertyMap := by
  intro run value written
  cases written with
  | empty opened closed => exact ⟨_, _, rfl, opened⟩
  | pairs opened listed closed => exact ⟨_, _, rfl, opened⟩

theorem reads_propertyPairs : Reads (listed (.symbol .comma) propertyPair)
    (Grammar.Separated (.symbol .comma) Grammar.PropertyPair)
    (fun kind => kind ≠ .symbol .comma ∧ always kind) :=
  reads_listed reads_propertyPair (by simp) trivial

/-- A list of pairs does not begin with a brace. -/
theorem kindAhead_propertyPairs {run : List Token} {pairs : List (String × Literal)}
    (listed : Grammar.Separated (.symbol .comma) Grammar.PropertyPair run pairs) :
    kindAhead (run ++ rest) ≠ .symbol .rightBrace := by
  rcases listed with ⟨⟨named, mark, written⟩, others⟩
  cases named with
  | identifier sort | keyword sort => simp [sort]

theorem reads_propertyMap (left : Token) (opened : left.kind = .symbol .leftBrace) :
    Reads propertyMap (fun run => Grammar.PropertyMap (left :: run)) always where
  sound := by
    intro marker tokens value rest ended read
    unfold propertyMap at read
    rcases accept_bind_cases ended (by simp) read with ⟨right, _, rfl, closed, later⟩ | ⟨_, later⟩
    · rw [if_pos rfl] at later
      obtain ⟨rfl, rfl⟩ := pure_eq_ok_iff.mp later
      exact ⟨[right], rfl, .empty opened closed⟩
    · rw [if_neg (by simp)] at later
      obtain ⟨run, _, pairs, rfl, listed, later⟩ := reads_propertyPairs.bind_cases ended later
      obtain ⟨right, _, rfl, closed, later⟩ := expect_bind_cases ended (by simp) later
      obtain ⟨rfl, rfl⟩ := pure_eq_ok_iff.mp later
      exact ⟨run ++ [right], by simp, .pairs opened listed closed⟩
  complete := by
    intro marker run value rest ended written stops
    unfold propertyMap
    cases written with
    | empty opened closed =>
        rw [List.singleton_append, accept_bind_of_kind closed]
        rfl
    | pairs opened listed closed =>
        rw [List.append_assoc, accept_bind_of_ne ended (kindAhead_propertyPairs listed),
          if_neg (by simp), reads_propertyPairs.bind_of ended listed ?_, List.singleton_append,
          expect_bind_of_kind closed]
        · rfl
        · simp [closed]

theorem opens_nodePattern : Opens (.symbol .leftParen) Grammar.NodePattern := by
  intro _ _ written
  obtain ⟨opened⟩ := written
  exact ⟨_, _, rfl, opened⟩

theorem reads_properties : Reads (optionally (.symbol .leftBrace) fun _ => propertyMap)
    (Grammar.Optional Grammar.PropertyMap) (· ≠ .symbol .leftBrace) :=
  (reads_optionally reads_propertyMap opens_propertyMap (by simp)).weaken
    fun _ other => ⟨other, trivial⟩

theorem reads_nodePattern : Reads nodePattern Grammar.NodePattern always where
  sound := by
    intro marker tokens value rest ended read
    unfold nodePattern at read
    rw [peek_bind] at read
    obtain ⟨left, _, rfl, opened, read⟩ := expect_bind_cases ended (by simp) read
    obtain ⟨first, _, binder, rfl, bound, read⟩ := (reads_named? (by simp)).bind_cases ended read
    obtain ⟨second, _, label, rfl, labelled, read⟩ :=
      (reads_named? (by simp)).bind_cases ended read
    obtain ⟨third, _, properties, rfl, required, read⟩ := reads_properties.bind_cases ended read
    obtain ⟨right, _, rfl, closed, read⟩ := expect_bind_cases ended (by simp) read
    obtain ⟨rfl, rfl⟩ := pure_eq_ok_iff.mp read
    exact ⟨left :: (first ++ (second ++ (third ++ [right]))), by simp,
      .mk opened bound labelled required closed⟩
  complete := by
    intro marker run value rest ended written stops
    unfold nodePattern
    cases written with
    | mk opened bound labelled required closed =>
        rw [List.cons_append, peek_bind, expect_bind_of_kind opened, List.append_assoc,
          (reads_named? (by simp)).bind_of ended bound ?_, List.append_assoc,
          (reads_named? (by simp)).bind_of ended labelled ?_, List.append_assoc,
          reads_properties.bind_of ended required ?_, List.singleton_append,
          expect_bind_of_kind closed]
        · rfl
        · simp [closed]
        · rw [List.append_assoc]
          exact opens_propertyMap.kindAhead_optional_ne required (by simp) (by simp [closed])
        · rw [List.append_assoc, List.append_assoc]
          apply opens_named.kindAhead_optional_ne labelled (by simp)
          exact opens_propertyMap.kindAhead_optional_ne required (by simp) (by simp [closed])

theorem opens_hopBound : Opens .integer Grammar.HopBound := by
  intro _ _ written
  obtain ⟨sort, number⟩ := written
  exact ⟨_, [], rfl, sort⟩

theorem reads_hopBound? :
    Reads hopBound? (Grammar.Optional Grammar.HopBound) (· ≠ .integer) := by
  refine (reads_optionally (fun token sort => ⟨?_, ?_⟩) opens_hopBound (by simp)).weaken
    fun _ other => ⟨other, trivial⟩
  · intro marker tokens value rest ended read
    cases number : Text.readUInt32? token.text.toList with
    | none => simp [number] at read
    | some bound =>
        simp only [number, pure_eq_ok_iff] at read
        obtain ⟨rfl, rfl⟩ := read
        exact ⟨[], rfl, .mk sort (Text.readUInt32?_eq_some_iff.mp number)⟩
  · intro marker run value rest ended written stops
    cases written with
    | mk sort number =>
        simp only [Text.readUInt32?_eq_some_iff.mpr number]
        rfl

theorem opens_hopRange : Opens (.symbol .asterisk) Grammar.HopRange := by
  intro run value written
  cases written with
  | any starred | exactly starred | atLeast starred | atMost starred | between starred =>
      exact ⟨_, _, rfl, starred⟩

theorem hopRange_sound {star : Token} (starred : star.kind = .symbol .asterisk)
    (ended : marker.kind = .endOfText) {range : HopRange}
    (read : hopRange star marker tokens = .ok (range, rest)) :
    ∃ run, tokens = run ++ rest ∧ Grammar.HopRange (star :: run) range := by
  unfold hopRange at read
  obtain ⟨first, _, low, rfl, below, read⟩ := reads_hopBound?.bind_cases ended read
  rcases accept_bind_cases ended (by simp) read with ⟨dots, _, rfl, dotted, later⟩ | ⟨_, later⟩
  · rw [if_pos rfl] at later
    obtain ⟨second, _, high, rfl, above, last⟩ := reads_hopBound?.bind_cases ended later
    cases above with
    | absent =>
        obtain ⟨rfl, rfl⟩ := pure_eq_ok_iff.mp last
        exact ⟨first ++ [dots], by simp, .atLeast starred below dotted⟩
    | @present _ high above =>
        change (if high < low.getD 0 then throw _ else pure _ : Parse HopRange) _ _ = _ at last
        by_cases wrong : high < low.getD 0
        · rw [if_pos wrong] at last
          exact absurd last throw_ne_ok
        · rw [if_neg wrong] at last
          obtain ⟨rfl, rfl⟩ := pure_eq_ok_iff.mp last
          cases below with
          | absent => exact ⟨dots :: second, by simp, .atMost starred dotted above⟩
          | present below =>
              exact ⟨first ++ dots :: second, by simp,
                .between starred below dotted above (UInt32.not_lt.mp wrong)⟩
  · rw [if_neg (by simp)] at later
    obtain ⟨rfl, rfl⟩ := pure_eq_ok_iff.mp later
    cases below with
    | absent => exact ⟨[], rfl, .any starred⟩
    | present bounded => exact ⟨first, rfl, .exactly starred bounded⟩

theorem hopRange_complete {star : Token} {run : List Token} {range : HopRange}
    (ended : marker.kind = .endOfText) (written : Grammar.HopRange (star :: run) range)
    (noDots : kindAhead rest ≠ .symbol .dotDot) (noBound : kindAhead rest ≠ .integer) :
    hopRange star marker (run ++ rest) = .ok (range, rest) := by
  unfold hopRange
  cases written with
  | any starred =>
      rw [reads_hopBound?.bind_of ended .absent noBound, accept_bind_of_ne ended noDots]
      rfl
  | exactly starred bounded =>
      rw [reads_hopBound?.bind_of ended (.present bounded) noBound, accept_bind_of_ne ended noDots]
      rfl
  | atLeast starred below dotted =>
      rw [List.append_assoc, reads_hopBound?.bind_of ended below (by simp [dotted]),
        List.singleton_append, accept_bind_of_kind dotted, if_pos rfl,
        ← List.nil_append rest, reads_hopBound?.bind_of ended .absent noBound]
      rfl
  | atMost starred dotted above =>
      rw [List.cons_append, ← List.nil_append (_ :: _),
        reads_hopBound?.bind_of ended .absent (by simp [dotted]), accept_bind_of_kind dotted,
        if_pos rfl, reads_hopBound?.bind_of ended (.present above) noBound]
      change (if _ < (0 : UInt32) then throw _ else pure _ : Parse HopRange) _ _ = _
      rw [if_neg (UInt32.not_lt.mpr (UInt32.zero_le))]
      rfl
  | between starred below dotted above ordered =>
      rw [List.append_assoc, reads_hopBound?.bind_of ended (.present below) (by simp [dotted]),
        List.cons_append, accept_bind_of_kind dotted, if_pos rfl,
        reads_hopBound?.bind_of ended (.present above) noBound]
      change (if _ then throw _ else pure _ : Parse HopRange) _ _ = _
      rw [Option.getD_some, if_neg (UInt32.not_lt.mpr ordered)]
      rfl

theorem reads_hopRange? : Reads (optionally (.symbol .asterisk) hopRange)
    (Grammar.Optional Grammar.HopRange)
    (fun kind => kind ≠ .symbol .asterisk ∧ kind ≠ .symbol .dotDot ∧ kind ≠ .integer) := by
  refine reads_optionally (fun star starred => ⟨?_, ?_⟩) opens_hopRange (by simp)
  · intro marker tokens range rest ended read
    exact hopRange_sound starred ended read
  · intro marker run range rest ended written stops
    exact hopRange_complete ended written stops.1 stops.2

theorem direction_sound {opening : Token}
    (begins : opening.kind = .symbol .dash ∨ opening.kind = .symbol .leftArrow)
    (ended : marker.kind = .endOfText) {value : Direction}
    (read : direction (opening.kind = .symbol .leftArrow) marker tokens = .ok (value, rest)) :
    ∃ run, tokens = run ++ rest ∧ Grammar.Ends opening run value := by
  unfold direction at read
  rcases begins with dash | arrow
  · rw [if_neg (by simp [dash])] at read
    rcases accept_bind_cases ended (by simp) read with ⟨last, _, rfl, tip, later⟩ | ⟨_, later⟩
    · rw [if_pos rfl] at later
      obtain ⟨rfl, rfl⟩ := pure_eq_ok_iff.mp later
      exact ⟨[last], rfl, .forward dash tip⟩
    · rw [if_neg (by simp)] at later
      rcases accept_bind_cases ended (by simp) later with ⟨last, _, rfl, shaft, next⟩ | ⟨_, next⟩
      · rw [if_pos rfl] at next
        rcases accept_bind_cases ended (by simp) next with ⟨tip, _, rfl, arrow, done⟩ | ⟨_, done⟩
        · rw [if_pos rfl] at done
          obtain ⟨rfl, rfl⟩ := pure_eq_ok_iff.mp done
          exact ⟨[last, tip], rfl, .forwardApart dash shaft arrow⟩
        · rw [if_neg (by simp)] at done
          obtain ⟨rfl, rfl⟩ := pure_eq_ok_iff.mp done
          exact ⟨[last], rfl, .either dash shaft⟩
      · exact absurd next reject_ne_ok
  · rw [if_pos (by simp [arrow])] at read
    rcases accept_bind_cases ended (by simp) read with ⟨last, _, rfl, shaft, later⟩ | ⟨_, later⟩
    · rw [if_pos rfl] at later
      obtain ⟨rfl, rfl⟩ := pure_eq_ok_iff.mp later
      exact ⟨[last], rfl, .backward arrow shaft⟩
    · exact absurd later reject_ne_ok

theorem direction_complete {opening : Token} {run : List Token} {value : Direction}
    (ended : marker.kind = .endOfText) (written : Grammar.Ends opening run value)
    (noTip : kindAhead rest ≠ .symbol .greaterThan) :
    direction (opening.kind = .symbol .leftArrow) marker (run ++ rest) = .ok (value, rest) := by
  unfold direction
  cases written with
  | forward dash arrow =>
      rw [if_neg (by simp [dash]), List.singleton_append, accept_bind_of_kind arrow]
      rfl
  | forwardApart dash shaft arrow =>
      rw [if_neg (by simp [dash]), List.cons_append, List.singleton_append,
        accept_bind_of_ne ended (by simp [shaft]), if_neg (by simp), accept_bind_of_kind shaft,
        if_pos rfl, accept_bind_of_kind arrow]
      rfl
  | either dash shaft =>
      rw [if_neg (by simp [dash]), List.singleton_append,
        accept_bind_of_ne ended (by simp [shaft]), if_neg (by simp), accept_bind_of_kind shaft,
        if_pos rfl, accept_bind_of_ne ended noTip]
      rfl
  | backward arrow shaft =>
      rw [if_pos (by simp [arrow]), List.singleton_append, accept_bind_of_kind shaft]
      rfl

theorem reads_relationshipPattern (opening : Token)
    (begins : opening.kind = .symbol .dash ∨ opening.kind = .symbol .leftArrow) :
    Reads (relationshipPattern opening)
      (fun run => Grammar.RelationshipPattern (opening :: run)) (· ≠ .symbol .greaterThan) where
  sound := by
    intro marker tokens value rest ended read
    unfold relationshipPattern at read
    obtain ⟨left, _, rfl, opened, read⟩ := expect_bind_cases ended (by simp) read
    obtain ⟨first, _, binder, rfl, bound, read⟩ := (reads_named? (by simp)).bind_cases ended read
    obtain ⟨second, _, type, rfl, typed, read⟩ := (reads_named? (by simp)).bind_cases ended read
    obtain ⟨third, _, range, rfl, ranged, read⟩ := reads_hopRange?.bind_cases ended read
    obtain ⟨right, _, rfl, closed, read⟩ := expect_bind_cases ended (by simp) read
    obtain ⟨direction, _, last, done⟩ := bind_eq_ok read
    obtain ⟨closing, rfl, directed⟩ := direction_sound begins ended last
    obtain ⟨rfl, rfl⟩ := pure_eq_ok_iff.mp done
    exact ⟨left :: (first ++ (second ++ (third ++ right :: closing))), by simp,
      .mk opened bound typed ranged closed directed⟩
  complete := by
    intro marker run value rest ended written stops
    unfold relationshipPattern
    cases written with
    | mk opened bound typed ranged closed directed =>
        rw [List.cons_append, expect_bind_of_kind opened, List.append_assoc,
          (reads_named? (by simp)).bind_of ended bound ?_, List.append_assoc,
          (reads_named? (by simp)).bind_of ended typed ?_, List.append_assoc,
          reads_hopRange?.bind_of ended ranged ?_, List.cons_append, expect_bind_of_kind closed,
          bind_of_ok (direction_complete ended directed stops)]
        · rfl
        · simp [closed]
        · rw [List.append_assoc]
          exact opens_hopRange.kindAhead_optional_ne ranged (by simp) (by simp [closed])
        · rw [List.append_assoc, List.append_assoc]
          apply opens_named.kindAhead_optional_ne typed (by simp)
          exact opens_hopRange.kindAhead_optional_ne ranged (by simp) (by simp [closed])

theorem exists_of_relationshipPattern {run : List Token} {value : RelationshipPattern}
    (written : Grammar.RelationshipPattern run value) :
    ∃ opening behind, run = opening :: behind ∧
      (opening.kind = .symbol .dash ∨ opening.kind = .symbol .leftArrow) := by
  cases written with
  | @mk opening left right first second third closing _ _ _ _ opened bound typed ranged closed
      directed =>
      refine ⟨opening, _, rfl, ?_⟩
      cases directed with
      | forward dash | forwardApart dash | either dash => exact .inl dash
      | backward arrow => exact .inr arrow

theorem length_le_of_hops {run : List Token} {hops : List Hop} (written : Grammar.Hops run hops) :
    hops.length ≤ run.length := by
  induction written with
  | none => exact Nat.le_refl 0
  | more joined reached others ih =>
      obtain ⟨opening, behind, rfl, _⟩ := exists_of_relationshipPattern joined
      simp only [List.length_cons, List.length_append]
      omega

theorem hops_sound (ended : marker.kind = .endOfText) {bound : Nat} {hops : List Hop}
    (read : hopsUpTo bound marker tokens = .ok (hops, rest)) :
    ∃ run, tokens = run ++ rest ∧ Grammar.Hops run hops := by
  induction bound generalizing tokens hops rest with
  | zero =>
      obtain ⟨rfl, rfl⟩ := pure_eq_ok_iff.mp read
      exact ⟨[], rfl, .none⟩
  | succ bound ih =>
      unfold hopsUpTo at read
      rw [peek_bind, kind_headD ended] at read
      by_cases begins : kindAhead tokens = .symbol .dash ∨ kindAhead tokens = .symbol .leftArrow
      · rw [if_pos begins] at read
        cases tokens with
        | nil => simp at begins
        | cons opening behind =>
            rw [skip_bind, List.tail_cons, List.headD_cons] at read
            obtain ⟨first, _, relationship, rfl, joined, later⟩ :=
              (reads_relationshipPattern opening begins).bind_cases ended read
            obtain ⟨second, _, node, rfl, reached, next⟩ :=
              reads_nodePattern.bind_cases ended later
            obtain ⟨others, _, more, last⟩ := bind_eq_ok next
            obtain ⟨third, rfl, followed⟩ := ih more
            obtain ⟨rfl, rfl⟩ := pure_eq_ok_iff.mp last
            exact ⟨(opening :: first) ++ (second ++ third), by simp, .more joined reached followed⟩
      · rw [if_neg begins] at read
        obtain ⟨rfl, rfl⟩ := pure_eq_ok_iff.mp read
        exact ⟨[], rfl, .none⟩

theorem hops_complete (ended : marker.kind = .endOfText) {run : List Token} {hops : List Hop}
    (written : Grammar.Hops run hops) {bound : Nat} (enough : hops.length ≤ bound)
    (noDash : kindAhead rest ≠ .symbol .dash) (noArrow : kindAhead rest ≠ .symbol .leftArrow) :
    hopsUpTo bound marker (run ++ rest) = .ok (hops, rest) := by
  induction written generalizing bound with
  | none =>
      cases bound with
      | zero => rfl
      | succ bound =>
          unfold hopsUpTo
          rw [List.nil_append, peek_bind, kind_headD ended, if_neg (by simp [noDash, noArrow])]
          rfl
  | more joined reached others ih =>
      cases bound with
      | zero => contradiction
      | succ bound =>
          obtain ⟨opening, behind, rfl, begins⟩ := exists_of_relationshipPattern joined
          unfold hopsUpTo
          rw [List.cons_append, List.cons_append, peek_bind, List.headD_cons, if_pos begins,
            skip_bind, List.tail_cons, List.append_assoc, List.append_assoc,
            (reads_relationshipPattern opening begins).bind_of ended joined ?_,
            reads_nodePattern.bind_of ended reached trivial,
            bind_of_ok (ih (Nat.le_of_succ_le_succ enough))]
          · rfl
          · rw [opens_nodePattern.kindAhead reached]
            simp

theorem reads_pattern : Reads pattern Grammar.Pattern
    (fun kind => kind ≠ .symbol .dash ∧ kind ≠ .symbol .leftArrow) where
  sound := by
    intro marker tokens value rest ended read
    unfold pattern at read
    obtain ⟨first, _, start, rfl, begun, later⟩ := reads_nodePattern.bind_cases ended read
    rw [get_bind] at later
    obtain ⟨hops, _, more, last⟩ := bind_eq_ok later
    obtain ⟨second, rfl, followed⟩ := hops_sound ended more
    obtain ⟨rfl, rfl⟩ := pure_eq_ok_iff.mp last
    exact ⟨first ++ second, by simp, .mk begun followed⟩
  complete := by
    intro marker run value rest ended written stops
    unfold pattern
    cases written with
    | mk begun followed =>
        have enough := length_le_of_hops followed
        rw [List.append_assoc, reads_nodePattern.bind_of ended begun trivial, get_bind,
          bind_of_ok (hops_complete ended followed (by rw [List.length_append]; omega)
            stops.1 stops.2)]
        rfl

end DocumentGraph.Query.Parse
