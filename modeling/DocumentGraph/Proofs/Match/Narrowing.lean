import DocumentGraph.Proofs.Match.Complete

namespace DocumentGraph.Match

open Query (Hop Identifier NodePattern Pattern RelationshipPattern Scope)

/-! Narrower searches.

A node position that asks for more finds fewer nodes.  If the position has a variable, the
variable stands for the node in every match from there on, so that asking at the position, in the
middle of the search, keeps the same binding sets in the same order as asking for the node behind
the variable at the end.
-/

theorem filter_flatMap_of_kept {σ τ : Type} {stage : σ → List τ} {keep : σ → Bool}
    {keepResult : τ → Bool} {states : List σ}
    (kept : ∀ state ∈ states, ∀ result ∈ stage state, keepResult result = keep state) :
    (states.filter keep).flatMap stage = (states.flatMap stage).filter keepResult := by
  induction states with
  | nil => rfl
  | cons state rest ih =>
      obtain ⟨first, others⟩ := List.forall_mem_cons.mp kept
      rw [List.flatMap_cons, List.filter_append, ← ih others, List.filter_cons]
      cases passes : keep state with
      | true =>
          have all : (stage state).filter keepResult = stage state :=
            List.filter_eq_self.mpr fun result member => (first result member).trans passes
          rw [if_pos rfl, List.flatMap_cons, all]
      | false =>
          have none : (stage state).filter keepResult = [] :=
            List.filter_eq_nil_iff.mpr fun result member => by
              rw [first result member, passes]
              exact Bool.false_ne_true
          rw [if_neg Bool.false_ne_true, none, List.nil_append]

section Stages

variable {ι σ : Type} {stage : ι → σ → List σ} {invariant : List ι → σ → Prop} {states : List σ}
  {rest : List ι}

theorem invariant_foldl (step : ∀ item items state, invariant (item :: items) state →
      ∀ result ∈ stage item state, invariant items result) {items : List ι}
    (begins : ∀ state ∈ states, invariant (items ++ rest) state) :
    ∀ result ∈ items.foldl (fun found item => found.flatMap (stage item)) states,
      invariant rest result := by
  induction items generalizing states with
  | nil => exact begins
  | cons item items ih =>
      refine ih fun result found => ?_
      obtain ⟨state, member, reached⟩ := List.mem_flatMap.mp found
      exact step item (items ++ rest) state (begins state member) result reached

/-- A test that no stage changes on settled states may be made before the stages or behind them. -/
theorem foldl_settled {settled : σ → Prop} {keep : σ → Bool}
    (step : ∀ item items state, invariant (item :: items) state → ∀ result ∈ stage item state,
      invariant items result ∧ (settled state → settled result ∧ keep result = keep state))
    {items : List ι} (begins : ∀ state ∈ states, invariant items state ∧ settled state) :
    items.foldl (fun found item => found.flatMap (stage item)) (states.filter keep) =
        (items.foldl (fun found item => found.flatMap (stage item)) states).filter keep ∧
      ∀ result ∈ items.foldl (fun found item => found.flatMap (stage item)) states,
        settled result := by
  induction items generalizing states with
  | nil => exact ⟨rfl, fun result member => (begins result member).2⟩
  | cons item items ih =>
      have here : (states.filter keep).flatMap (stage item) =
          (states.flatMap (stage item)).filter keep := by
        refine filter_flatMap_of_kept fun state member result reached => ?_
        obtain ⟨holds, settles⟩ := begins state member
        exact ((step item items state holds result reached).2 settles).2
      rw [List.foldl_cons, List.foldl_cons, here]
      refine ih fun result found => ?_
      obtain ⟨state, member, reached⟩ := List.mem_flatMap.mp found
      obtain ⟨holds, settles⟩ := begins state member
      obtain ⟨kept, stays⟩ := step item items state holds result reached
      exact ⟨kept, (stays settles).1⟩

/-- A stage that keeps less leaves what a test at the end leaves, if its results are settled. -/
theorem foldl_narrow {settled : σ → Prop} {keep : σ → Bool} {before after : List ι}
    {narrow wide : ι}
    (step : ∀ item items state, invariant (item :: items) state → ∀ result ∈ stage item state,
      invariant items result ∧ (settled state → settled result ∧ keep result = keep state))
    (begins : ∀ state ∈ states, invariant (before ++ wide :: after) state)
    (here : ∀ state, invariant (wide :: after) state →
      stage narrow state = (stage wide state).filter keep ∧
      ∀ result ∈ stage wide state, settled result) :
    (before ++ narrow :: after).foldl (fun found item => found.flatMap (stage item)) states =
        ((before ++ wide :: after).foldl (fun found item => found.flatMap (stage item))
          states).filter keep ∧
      ∀ result ∈ (before ++ wide :: after).foldl (fun found item => found.flatMap (stage item))
          states, settled result := by
  have reached : ∀ state ∈ before.foldl (fun found item => found.flatMap (stage item)) states,
      invariant (wide :: after) state :=
    invariant_foldl (fun item items state holds result found =>
      (step item items state holds result found).1) begins
  rw [List.foldl_append, List.foldl_append, List.foldl_cons, List.foldl_cons]
  generalize before.foldl (fun found item => found.flatMap (stage item)) states = middle at reached
  have narrowed : middle.flatMap (stage narrow) = (middle.flatMap (stage wide)).filter keep := by
    rw [List.filter_flatMap]
    exact List.flatMap_congr fun state member => (here state (reached state member)).1
  rw [narrowed]
  -- From here on every state is settled, so that the test may wait for the end.
  refine foldl_settled step fun result found => ?_
  obtain ⟨state, member, taken⟩ := List.mem_flatMap.mp found
  have holds := reached state member
  exact ⟨(step wide after state holds result taken).1, (here state holds).2 result taken⟩

end Stages

variable {graph : Graph} {maxDepth : Nat} {last scope : Scope} {name : String} {element : Element}
  {stored later : Bindings} {current result : Partial}

theorem HopsLeft.of_mem (indexed : graph.Indexed) {hop : Hop} {hops : List Hop}
    (left : HopsLeft graph last (hop :: hops) current)
    (found : result ∈ (Match.hop graph.snapshot maxDepth hop current).value) :
    HopsLeft graph last hops result ∧ ∀ name element,
      current.bindings.lookup name = some element → result.bindings.lookup name = some element := by
  obtain ⟨choice, allowed, rfl⟩ := (left.enumerates indexed).exists_of_mem found
  exact ⟨left.advance allowed, fun _ _ bound => allowed.2.lookup_store bound⟩

theorem PatternsLeft.of_mem (indexed : graph.Indexed) {pattern : Pattern} {patterns : List Pattern}
    (left : PatternsLeft graph last (pattern :: patterns) stored)
    (found : later ∈ (Match.pattern graph.snapshot maxDepth pattern stored).value) :
    PatternsLeft graph last patterns later ∧ ∀ name element,
      stored.lookup name = some element → later.lookup name = some element := by
  obtain ⟨choice, allowed, rfl⟩ := (left.enumerates maxDepth indexed).exists_of_mem found
  exact ⟨left.extended allowed, fun _ _ bound => allowed.2.lookup_store bound⟩

theorem hopsLeft_of_starts (indexed : graph.Indexed) {start : NodePattern} {hops : List Hop}
    (known : Known graph scope stored) (accepted : scope.pattern { start, hops } = .ok last)
    (found : result ∈ (starts graph.snapshot start stored).value) :
    HopsLeft graph last hops result := by
  obtain ⟨middle, introduced, others⟩ := Scope.pattern_cases accepted
  obtain ⟨node, allowed, rfl⟩ :=
    (starts_enumerates indexed known.within start).exists_of_mem found
  exact ⟨middle, ready_begun known introduced allowed.1.1, others⟩

/-- One pattern asks for what the other asks for, and for a test besides. -/
structure Narrows (narrow wide : NodePattern) (test : Node → Bool) : Prop where
  binder : narrow.binder = wide.binder
  satisfied : ∀ node, (satisfies node narrow).value = ((satisfies node wide).value && test node)

/-- The variable stands for a node that passes a test. -/
def standsFor (owner : Identifier) (test : Node → Bool) (bindings : Bindings) : Bool :=
  match bindings.element? owner with
  | some (.node node) => test node
  | _ => false

variable {narrow wide : NodePattern} {test : Node → Bool} {snapshot : Snapshot}
  {owner : Identifier}

theorem standsFor_of_bound {node : Node} (bound : stored.element? owner = some (.node node)) :
    standsFor owner test stored = test node := by
  rw [standsFor, bound]

theorem value_starts_narrow (narrows : Narrows narrow wide test) (stored : Bindings) :
    (starts snapshot narrow stored).value =
      (starts snapshot wide stored).value.filter fun found => test found.anchor := by
  cases bound : wide.binder.bind stored.element? with
  | none =>
      have free : narrow.binder.bind stored.element? = none := narrows.binder ▸ bound
      rw [value_starts_free free, value_starts_free bound, narrows.binder, List.filter_map,
        List.filter_filter]
      congr 1
      apply List.filter_congr
      intro node _
      rw [narrows.satisfied, Bool.and_comm]
      rfl
  | some element =>
      have bound' : narrow.binder.bind stored.element? = some element := narrows.binder ▸ bound
      cases element with
      | edge edge => rw [value_starts_edge bound', value_starts_edge bound, List.filter_nil]
      | node node =>
          rw [value_starts_node bound', value_starts_node bound, narrows.satisfied]
          cases (satisfies node wide).value with
          | false => rfl
          | true => cases passes : test node <;> simp [passes]

theorem admitsNode_narrow (narrows : Narrows narrow wide test) (current : Partial) (node : Node) :
    current.admitsNode narrow node = (current.admitsNode wide node && test node) := by
  rw [Partial.admitsNode, Partial.admitsNode, narrows.satisfied, narrows.binder]
  cases (satisfies node wide).value <;> cases test node <;> simp

theorem filter_ite_some {α : Type} (wanted more : Bool) {keep : α → Bool} {value : α}
    (same : keep value = more) :
    (if wanted && more then some value else none) =
      (if wanted then some value else none).filter keep := by
  cases wanted <;> cases more <;> simp [Option.filter, same]

theorem value_hop_narrow (narrows : Narrows narrow wide test) (relationship : RelationshipPattern)
    (current : Partial) :
    (Match.hop snapshot maxDepth { relationship, node := narrow } current).value =
      (Match.hop snapshot maxDepth { relationship, node := wide } current).value.filter
        fun found => test found.anchor := by
  have extended (edge : Edge) (node : Node) :
      current.extend { relationship, node := narrow } edge node =
        current.extend { relationship, node := wide } edge node := by
    rw [Partial.extend, Partial.extend, narrows.binder]
  unfold Match.hop
  cases relationship.range with
  | none =>
      rw [value_oneStep, value_oneStep, List.filter_filterMap]
      apply List.filterMap_congr
      intro step _
      rw [admitsNode_narrow narrows, extended, Bool.and_right_comm]
      exact filter_ite_some _ _ rfl
  | some range =>
      rw [value_manySteps, value_manySteps, List.filter_filterMap]
      apply List.filterMap_congr
      intro trail _
      cases trail.edges.head? with
      | none => rfl
      | some edge =>
          rw [Option.bind_some, Option.bind_some, admitsNode_narrow narrows, extended]
          exact filter_ite_some _ _ rfl

/-- A pattern without one of its node positions. -/
inductive PatternHole where
  | atStart (hops : List Hop)
  | behindHop (start : NodePattern) (before : List Hop) (relationship : RelationshipPattern)
      (after : List Hop)

def PatternHole.fill : PatternHole → NodePattern → Pattern
  | atStart hops, node => { start := node, hops }
  | behindHop start before relationship after, node =>
      { start, hops := before ++ { relationship, node } :: after }

/-- A list of patterns without one of its node positions. -/
structure NodePlace where
  before : List Pattern
  hole : PatternHole
  after : List Pattern

def NodePlace.fill (place : NodePlace) (node : NodePattern) : List Pattern :=
  place.before ++ place.hole.fill node :: place.after

/-- The variable stands for a node. -/
def Settled (owner : Identifier) (bindings : Bindings) : Prop :=
  ∃ node, bindings.element? owner = some (.node node)

theorem Settled.standsFor_eq (settled : Settled owner stored)
    (kept : ∀ name element, stored.lookup name = some element → later.lookup name = some element) :
    Settled owner later ∧ standsFor owner test later = standsFor owner test stored := by
  obtain ⟨node, bound⟩ := settled
  have bound' : later.element? owner = some (.node node) := kept owner.name _ bound
  exact ⟨⟨node, bound'⟩, by rw [standsFor_of_bound bound, standsFor_of_bound bound']⟩

theorem anchor_of_starts (named : wide.binder = some owner)
    (found : result ∈ (starts snapshot wide stored).value) :
    result.bindings.element? owner = some (.node result.anchor) := by
  cases bound : wide.binder.bind stored.element? with
  | none =>
      rw [value_starts_free bound, List.mem_map] at found
      obtain ⟨node, _, rfl⟩ := found
      rw [named]
      exact Ordered.lookup_put_self owner.name (Element.node node) stored
  | some element =>
      cases element with
      | edge edge => simp [value_starts_edge bound] at found
      | node node =>
          rw [value_starts_node bound] at found
          split at found
          · obtain rfl := List.mem_singleton.mp found
            rwa [named, Option.bind_some] at bound
          · contradiction

theorem anchor_of_hop {relationship : RelationshipPattern} (named : wide.binder = some owner)
    (found : result ∈
      (Match.hop snapshot maxDepth { relationship, node := wide } current).value) :
    result.bindings.element? owner = some (.node result.anchor) := by
  obtain ⟨edge, node, rfl⟩ := exists_extend_of_mem_hop found
  rw [Partial.extend, named]
  exact Ordered.lookup_put_self owner.name (Element.node node) _

/-- What later stages keep of a variable that stands for a node. -/
theorem value_starts_standsFor (narrows : Narrows narrow wide test)
    (named : wide.binder = some owner) (stored : Bindings) :
    (starts snapshot narrow stored).value =
      (starts snapshot wide stored).value.filter fun found => standsFor owner test found.bindings := by
  rw [value_starts_narrow narrows]
  exact List.filter_congr fun found member =>
    (standsFor_of_bound (anchor_of_starts named member)).symm

theorem value_hop_standsFor (narrows : Narrows narrow wide test) (named : wide.binder = some owner)
    (relationship : RelationshipPattern) (current : Partial) :
    (Match.hop snapshot maxDepth { relationship, node := narrow } current).value =
      (Match.hop snapshot maxDepth { relationship, node := wide } current).value.filter
        fun found => standsFor owner test found.bindings := by
  rw [value_hop_narrow narrows]
  exact List.filter_congr fun found member =>
    (standsFor_of_bound (anchor_of_hop named member)).symm

theorem value_pattern_narrow (indexed : graph.Indexed) (narrows : Narrows narrow wide test)
    (named : wide.binder = some owner) (hole : PatternHole)
    (known : Known graph scope stored) (accepted : scope.pattern (hole.fill wide) = .ok last) :
    (Match.pattern graph.snapshot maxDepth (hole.fill narrow) stored).value =
        (Match.pattern graph.snapshot maxDepth (hole.fill wide) stored).value.filter
          (standsFor owner test) ∧
      ∀ result ∈ (Match.pattern graph.snapshot maxDepth (hole.fill wide) stored).value,
        Settled owner result := by
  have step : ∀ hop hops current, HopsLeft graph last (hop :: hops) current →
      ∀ result ∈ (Match.hop graph.snapshot maxDepth hop current).value,
        HopsLeft graph last hops result ∧ (Settled owner current.bindings →
          Settled owner result.bindings ∧
            standsFor owner test result.bindings = standsFor owner test current.bindings) := by
    intro hop hops current left result found
    obtain ⟨left, kept⟩ := left.of_mem indexed found
    exact ⟨left, fun settled => settled.standsFor_eq kept⟩
  have begins : ∀ {start hops}, scope.pattern { start, hops } = .ok last →
      ∀ current ∈ (starts graph.snapshot start stored).value, HopsLeft graph last hops current :=
    fun accepted _ member => hopsLeft_of_starts indexed known accepted member
  rw [value_pattern, value_pattern, List.filter_map, List.forall_mem_map]
  cases hole with
  | atStart hops =>
      obtain ⟨narrowed, settled⟩ := foldl_settled step fun current member =>
        ⟨begins accepted current member, current.anchor, anchor_of_starts named member⟩
      simp only [PatternHole.fill]
      rw [value_starts_standsFor narrows named, narrowed]
      exact ⟨rfl, settled⟩
  | behindHop start before relationship after =>
      obtain ⟨narrowed, settled⟩ := foldl_narrow step (begins accepted) fun current _ =>
        ⟨value_hop_standsFor narrows named relationship current,
          fun result found => ⟨result.anchor, anchor_of_hop named found⟩⟩
      exact ⟨congrArg (List.map Partial.bindings) narrowed, settled⟩

/-- A query whose position asks for more finds the binding sets in which the position's variable
stands for a node that passes. -/
theorem value_patterns_narrow (maxDepth : Nat) (indexed : graph.Indexed)
    (narrows : Narrows narrow wide test) (named : wide.binder = some owner) (place : NodePlace)
    (accepted : Scope.ofPatterns (place.fill wide) = .ok last) :
    (Match.patterns graph.snapshot maxDepth (place.fill narrow)).value =
        (Match.patterns graph.snapshot maxDepth (place.fill wide)).value.filter
          (standsFor owner test) ∧
      ∀ result ∈ (Match.patterns graph.snapshot maxDepth (place.fill wide)).value,
        Settled owner result := by
  have step : ∀ pattern patterns stored, PatternsLeft graph last (pattern :: patterns) stored →
      ∀ result ∈ (Match.pattern graph.snapshot maxDepth pattern stored).value,
        PatternsLeft graph last patterns result ∧ (Settled owner stored →
          Settled owner result ∧ standsFor owner test result = standsFor owner test stored) := by
    intro pattern patterns stored left result found
    obtain ⟨left, kept⟩ := left.of_mem indexed found
    exact ⟨left, fun settled => settled.standsFor_eq kept⟩
  have begins : PatternsLeft graph last (place.fill wide) [] :=
    ⟨[], ⟨within_nil, Scope.describes_nil⟩, accepted⟩
  rw [value_patterns, value_patterns]
  refine foldl_narrow step (List.forall_mem_singleton.mpr begins) fun stored left => ?_
  obtain ⟨scope, known, introduced⟩ := left
  obtain ⟨middle, taken, _⟩ := Scope.foldlM_cons_cases introduced
  exact value_pattern_narrow indexed narrows named place.hole known taken

end DocumentGraph.Match
