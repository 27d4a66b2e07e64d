import DocumentGraph.Proofs.Match.Route

namespace DocumentGraph.Match

open Query (Hop HopRange NodePattern RelationshipPattern)

/-! Breadth-first search.

A search looks at the trail that has waited longest, keeps what it finds there, and lets the
extensions of the trail wait behind all others.  So it comes to the shorter trails first, and it
ends because every trail has finitely many extensions and no trail grows longer than there are ids,
however high its bound is.  What it finds is what a hop of variable length finds.
-/

variable {graph : Snapshot} {hop : Hop} {current : Partial} {min max : Nat}

def least (range : HopRange) : Nat :=
  (range.min.map UInt32.toNat).getD 0

def most (maxDepth : Nat) (range : HopRange) : Nat :=
  (range.max.map UInt32.toNat).getD maxDepth

/-- A node satisfies the pattern, and if its variable is bound already, then to a node with the same
id. -/
structure Partial.Accepts (current : Partial) (pattern : NodePattern) (node : Node) : Prop where
  satisfied : Satisfies node pattern
  agrees : ∀ existing ∈ pattern.binder.bind current.bindings.element?,
    ∃ bound : Node, existing = .node bound ∧ bound.id = node.id

theorem allows_node_iff_agrees {bindings : Bindings} {binder : Option Query.Identifier}
    {node : Node} : bindings.allows binder (.node node) = true ↔
      ∀ existing ∈ binder.bind bindings.element?,
        ∃ bound : Node, existing = .node bound ∧ bound.id = node.id := by
  unfold Bindings.allows
  cases binder.bind bindings.element? with
  | none => simp
  | some existing => cases existing <;> simp [Element.same]

theorem admitsNode_iff {pattern : NodePattern} {node : Node} :
    current.admitsNode pattern node = true ↔ current.Accepts pattern node := by
  rw [Partial.admitsNode, Bool.and_eq_true, satisfies_iff, allows_node_iff_agrees]
  exact ⟨fun both => ⟨both.1, both.2⟩, fun accepts => ⟨accepts.satisfied, accepts.agrees⟩⟩

instance (pattern : NodePattern) (node : Node) : Decidable (current.Accepts pattern node) :=
  decidable_of_iff _ admitsNode_iff

/-- A route whose last node is accepted binds its last edge and its last node. -/
def Route.result? (hop : Hop) (current : Partial) (route : Route) : Option Partial :=
  route.getLast?.bind fun final =>
    if current.Accepts hop.node final.node then some (current.extend hop final.edge final.node)
    else none

def Trail.result? (hop : Hop) (current : Partial) (trail : Trail) : Option Partial :=
  trail.edges.head?.bind fun final =>
    if current.admitsNode hop.node trail.node then some (current.extend hop final trail.node)
    else none

theorem result?_trail (source : Node) (route : Route) :
    (route.trail source).result? hop current = route.result? hop current := by
  rcases List.eq_nil_or_concat' route with rfl | ⟨earlier, final, rfl⟩
  · rfl
  · simp [Trail.result?, Route.result?, Route.trail, admitsNode_iff]

/-- From some length on, the trails are the routes. -/
theorem flatten_drop_levels_routes (faithful : graph.Faithful) (relationship : RelationshipPattern)
    (source : Node) (fewest further : Nat) :
    ((Trail.levels graph relationship further [Trail.start source]).drop fewest).flatten =
      ((List.range' fewest (further + 1 - fewest)).flatMap
        (routes graph relationship source)).map (Route.trail source) := by
  rw [flatten_drop_levels, List.map_flatMap]
  exact List.flatMap_congr fun length _ => grown_eq_map_routes faithful length

theorem value_manySteps_grown (maxDepth : Nat) (hop : Hop) (range : HopRange)
    (current : Partial) :
    (manySteps graph maxDepth hop range current).value =
      (List.range' (Nat.max 1 (least range))
          (most maxDepth range + 1 - Nat.max 1 (least range))).flatMap fun length =>
        (Trail.grown graph hop.relationship length [Trail.start current.anchor]).filterMap
          (Trail.result? hop current) := by
  rw [value_manySteps, trails, flatten_drop_levels, List.filterMap_flatMap]
  rfl

theorem value_manySteps_routes (faithful : graph.Faithful) (maxDepth : Nat) (hop : Hop)
    (range : HopRange) (current : Partial) :
    (manySteps graph maxDepth hop range current).value =
      (List.range' (Nat.max 1 (least range))
          (most maxDepth range + 1 - Nat.max 1 (least range))).flatMap fun length =>
        (routes graph hop.relationship current.anchor length).filterMap
          (Route.result? hop current) := by
  rw [value_manySteps_grown]
  refine List.flatMap_congr fun length _ => ?_
  rw [grown_eq_map_routes faithful, List.filterMap_map]
  exact List.filterMap_congr fun route _ => result?_trail current.anchor route

structure Search where
  /-- The trails to be looked at, the one that has waited longest first. -/
  waiting : List Trail
  found : List Partial

def Search.begun (current : Partial) : Search where
  waiting := [Trail.start current.anchor]
  found := []

/-- What is found at a trail of enough edges. -/
def Trail.results (hop : Hop) (min : Nat) (current : Partial) (trail : Trail) : List Partial :=
  if min ≤ trail.edges.length then (trail.result? hop current).toList else []

/-- The trails by which a trail of fewer edges than the bound goes on. -/
def Trail.further (graph : Snapshot) (hop : Hop) (max : Nat) (trail : Trail) : List Trail :=
  if trail.edges.length < max then trail.extensions graph hop.relationship else []

/-- One round looks at the trail that has waited longest. -/
def Search.round (graph : Snapshot) (hop : Hop) (min max : Nat) (current : Partial)
    (search : Search) : Search :=
  match search.waiting with
  | [] => search
  | trail :: waiting => {
      waiting := waiting ++ trail.further graph hop max
      found := search.found ++ trail.results hop min current }

/-- After a level has been looked at, its extensions wait behind the trails that waited behind it. -/
theorem rounds_level (level later : List Trail) (found : List Partial) :
    (Search.round graph hop min max current)^[level.length]
        { waiting := level ++ later, found } = {
      waiting := later ++ level.flatMap (Trail.further graph hop max)
      found := found ++ level.flatMap (Trail.results hop min current) } := by
  induction level generalizing later found with
  | nil => simp
  | cons trail rest ih =>
      rw [List.length_cons, Function.iterate_succ_apply]
      have looked : Search.round graph hop min max current
          { waiting := trail :: rest ++ later, found } = {
        waiting := rest ++ (later ++ trail.further graph hop max)
        found := found ++ trail.results hop min current } := by
        simp [Search.round]
      rw [looked, ih]
      simp

theorem rounds_whole (level : List Trail) (found : List Partial) :
    (Search.round graph hop min max current)^[level.length] { waiting := level, found } = {
      waiting := level.flatMap (Trail.further graph hop max)
      found := found ++ level.flatMap (Trail.results hop min current) } := by
  simpa using rounds_level level [] found

theorem length_edges_of_mem_extensions {relationship : RelationshipPattern} {trail longer : Trail}
    (member : longer ∈ trail.extensions graph relationship) :
    longer.edges.length = trail.edges.length + 1 := by
  obtain ⟨step, _, extended⟩ := List.mem_filterMap.mp member
  split at extended
  · contradiction
  · obtain rfl := Option.some.inj extended
    rfl

theorem length_edges_of_mem_grown {relationship : RelationshipPattern} {source : Node}
    {length : Nat} {trail : Trail}
    (member : trail ∈ Trail.grown graph relationship length [Trail.start source]) :
    trail.edges.length = length := by
  induction length generalizing trail with
  | zero =>
      obtain rfl := List.mem_singleton.mp member
      rfl
  | succ length ih =>
      rw [Trail.grown, Function.iterate_succ_apply'] at member
      obtain ⟨before, inside, extended⟩ := List.mem_flatMap.mp member
      rw [length_edges_of_mem_extensions extended, ih inside]

/-- The search takes one round for every trail, and comes to the levels in their order. -/
theorem rounds_levels (more : Nat) {level : List Trail}
    (lengths : ∀ trail ∈ level, trail.edges.length + more = max) (found : List Partial) :
    (Search.round graph hop min max current)^[
        (Trail.levels graph hop.relationship more level).flatten.length]
        { waiting := level, found } = {
      waiting := []
      found := found ++ (Trail.levels graph hop.relationship more level).flatten.flatMap
        (Trail.results hop min current) } := by
  induction more generalizing level found with
  | zero =>
      -- The trails of the last level have as many edges as the bound allows.
      have full : level.flatMap (Trail.further graph hop max) = [] :=
        List.flatMap_eq_nil_iff.mpr fun trail member =>
          if_neg (Nat.not_lt.mpr (Nat.le_of_eq (lengths trail member).symm))
      rw [Trail.levels, List.flatten_singleton, rounds_whole, full]
  | succ more ih =>
      by_cases dead : level = []
      · subst dead
        simp [Trail.levels]
      · have grown : level.flatMap (Trail.further graph hop max) =
            level.flatMap (Trail.extensions graph hop.relationship) :=
          List.flatMap_congr fun trail member =>
            if_pos (by have := lengths trail member; omega)
        have longer : ∀ trail ∈ level.flatMap (Trail.extensions graph hop.relationship),
            trail.edges.length + more = max := by
          intro trail member
          obtain ⟨before, inside, extended⟩ := List.mem_flatMap.mp member
          have counted := length_edges_of_mem_extensions extended
          have total := lengths before inside
          omega
        rw [levels_cons more dead, List.flatten_cons, List.length_append, Nat.add_comm,
          Function.iterate_add_apply, rounds_whole, grown, ih longer, List.flatMap_append,
          List.append_assoc]

theorem results_trail (route : Route) :
    (route.trail current.anchor).results hop min current =
      if min ≤ route.length then (route.result? hop current).toList else [] := by
  rw [Trail.results, result?_trail]
  simp [Route.trail]

theorem flatMap_results (length : Nat) :
    (routes graph hop.relationship current.anchor length).flatMap
        (fun route => (route.trail current.anchor).results hop min current) =
      if Nat.max 1 min ≤ length then
        (routes graph hop.relationship current.anchor length).filterMap (Route.result? hop current)
      else [] := by
  cases length with
  | zero => simp [routes, results_trail, Route.result?]
  | succ length =>
      have each : ∀ route ∈ routes graph hop.relationship current.anchor (length + 1),
          (route.trail current.anchor).results hop min current =
            if Nat.max 1 min ≤ length + 1 then (route.result? hop current).toList else [] := by
        intro route member
        have same : min ≤ length + 1 ↔ max 1 min ≤ length + 1 := by omega
        rw [results_trail, (mem_routes.mp member).length]
        simp only [same]
      rw [List.flatMap_congr each]
      split
      · exact (List.filterMap_eq_flatMap_toList _ _).symm
      · exact List.flatMap_eq_nil_iff.mpr fun _ _ => rfl

/-- A range loses nothing at its ends where nothing is found. -/
theorem flatMap_range' {β : Type} {found : Nat → List β} {start count : Nat} (first last : Nat)
    (inside : start ≤ first ∧ last ≤ start + count)
    (apart : ∀ place, start ≤ place → place < start + count → place < first ∨ last ≤ place →
      found place = []) :
    (List.range' start count).flatMap found =
      (List.range' first (last - first)).flatMap found := by
  have empty (place number : Nat) (outer : ∀ other, place ≤ other → other < place + number →
      start ≤ other ∧ other < start + count ∧ (other < first ∨ last ≤ other)) :
      (List.range' place number).flatMap found = [] := by
    refine List.flatMap_eq_nil_iff.mpr fun other member => ?_
    obtain ⟨low, high⟩ := List.mem_range'_1.mp member
    obtain ⟨above, below, outside⟩ := outer other low high
    exact apart other above below outside
  by_cases ordered : first ≤ last
  · have split : count = (first - start) + ((last - first) + (start + count - last)) := by omega
    have before := empty start (first - start) fun _ _ _ => by omega
    have behind := empty (start + (first - start) + (last - first)) (start + count - last)
      fun _ _ _ => by omega
    have meets : start + (first - start) = first := by omega
    rw [split, ← List.range'_append_1, ← List.range'_append_1, List.flatMap_append,
      List.flatMap_append, before, behind, meets, List.nil_append, List.append_nil]
  · have none : last - first = 0 := by omega
    rw [none, List.range'_zero, List.flatMap_nil]
    exact empty start count fun _ _ _ => by omega

/-- The search ends after one round for every route, and has found what the hop finds. -/
theorem rounds_manySteps (faithful : graph.Faithful) (maxDepth : Nat) (hop : Hop)
    (range : HopRange) (current : Partial) :
    (Search.round graph hop (least range) (most maxDepth range) current)^[
        ((List.range (most maxDepth range + 1)).flatMap
          (routes graph hop.relationship current.anchor)).length] (Search.begun current) = {
      waiting := []
      found := (manySteps graph maxDepth hop range current).value } := by
  have levels := flatten_drop_levels_routes faithful hop.relationship current.anchor 0
    (most maxDepth range)
  rw [List.drop_zero, Nat.sub_zero, ← List.range_eq_range'] at levels
  have counted := congrArg List.length levels
  rw [List.length_map] at counted
  have lengths : ∀ trail ∈ [Trail.start current.anchor],
      trail.edges.length + most maxDepth range = most maxDepth range := by simp [Trail.start]
  rw [← counted, Search.begun, rounds_levels _ lengths, levels, List.nil_append,
    List.flatMap_map, List.flatMap_assoc]
  simp only [flatMap_results]
  rw [value_manySteps_routes faithful, List.range_eq_range',
    flatMap_range' (Nat.max 1 (least range)) (most maxDepth range + 1) (by omega)]
  · congr 1
    refine List.flatMap_congr fun length member => if_pos ?_
    exact (List.mem_range'_1.mp member).1
  · intro length _ inside outside
    exact if_neg (by omega)

theorem trails_eq_of_settled {ids : Finset String} {low high : Nat}
    (faithful : graph.Faithful) (relationship : RelationshipPattern) (source : Node)
    (begins : source.id ∈ ids) (answered : ∀ id, (graph.node? id).isSome → id ∈ ids)
    (settled : ids.card ≤ low + 1) (le : low ≤ high) (fewest : Nat) :
    trails graph relationship fewest high source = trails graph relationship fewest low source := by
  rw [trails, trails, flatten_drop_levels_routes faithful, flatten_drop_levels_routes faithful,
    flatMap_range' (Nat.max 1 fewest) (low + 1) (by omega)]
  intro length above _ outside
  exact routes_eq_nil faithful answered begins (by omega)

/-- What a hop of variable length does.  The trails of each length are the routes of that length in
the lexicographic order of their places; looking at the trail that has waited longest ends after
one round for each of them. -/
structure BreadthFirst (graph : Snapshot) (maxDepth : Nat) (hop : Hop) (range : HopRange)
    (current : Partial) (listed : Nat → List Route) : Prop where
  exact : ∀ length route, route ∈ listed length ↔
    SimpleRoute graph hop.relationship current.anchor length route
  ordered : ∀ length, (listed length).Pairwise fun early late =>
    List.Lex (· < ·) early.places late.places
  ends : (Search.round graph hop (least range) (most maxDepth range) current)^[
      ((List.range (most maxDepth range + 1)).flatMap listed).length] (Search.begun current) = {
    waiting := []
    found := (manySteps graph maxDepth hop range current).value }
  found : (manySteps graph maxDepth hop range current).value =
    (List.range' (Nat.max 1 (least range))
        (most maxDepth range + 1 - Nat.max 1 (least range))).flatMap fun length =>
      (listed length).filterMap (Route.result? hop current)
  /-- No route is as long as the number of ids that the snapshot answers. -/
  finite : ∀ ids : Finset String, current.anchor.id ∈ ids →
    (∀ id, (graph.node? id).isSome → id ∈ ids) → ∀ length, ids.card ≤ length → listed length = []
  /-- An upper bound that is not below the longest routes may as well be higher. -/
  settled : ∀ ids : Finset String, current.anchor.id ∈ ids →
    (∀ id, (graph.node? id).isSome → id ∈ ids) → ids.card ≤ most maxDepth range + 1 →
    ∀ deeper (wider : HopRange), wider.min = range.min →
      most maxDepth range ≤ most deeper wider →
      manySteps graph deeper hop wider current = manySteps graph maxDepth hop range current

theorem manySteps_breadthFirst (faithful : graph.Faithful) (maxDepth : Nat) (hop : Hop)
    (range : HopRange) (current : Partial) :
    BreadthFirst graph maxDepth hop range current
      (routes graph hop.relationship current.anchor) where
  exact := fun _ _ => mem_routes
  ordered := routes_pairwise
  ends := rounds_manySteps faithful maxDepth hop range current
  found := value_manySteps_routes faithful maxDepth hop range current
  finite := fun _ begins answered _ long => routes_eq_nil faithful answered begins long
  settled := by
    intro ids begins answered reached deeper wider same le
    have trails := trails_eq_of_settled faithful hop.relationship current.anchor begins answered
      reached le (least range)
    unfold least most at trails
    rw [manySteps, manySteps, same, trails]

/-- Two nodes that link to each other, one of them also to itself and twice to the other with one
edge listed again; and a last node whose edge leads nowhere. -/
def tangle : Snapshot :=
  let link (id source target : String) : Edge := { id, type := "LINKS_TO", source, target }
  Snapshot.ofLists [{ id := "a" }, { id := "b" }, { id := "c" }]
    [link "a-a" "a" "a", link "a-b" "a" "b", link "a-b again" "a" "b",
      link "a-b again" "a" "b", link "b-a" "b" "a", link "b-c" "b" "c", link "c-d" "c" "d"]

/-- `-[e]->(n)` -/
def leaving : Hop where
  relationship := { binder := some { name := "e", position := {} }, direction := .forward }
  node := { binder := some { name := "n", position := {} } }

def atFirst : Partial where
  bindings := []
  anchor := { id := "a" }

/-- Seven trails are looked at, however high the bound is. -/
theorem manySteps_breadthFirst_tangle : tangle.Faithful ∧
    ∃ found, (Search.round tangle leaving 0 2 atFirst)^[7] (Search.begun atFirst) =
        { waiting := [], found } ∧
      found.map (fun result => result.anchor.id) = ["b", "b", "b", "c", "c", "c"] ∧
      found = (manySteps tangle 4294967295 leaving ⟨none, none⟩ atFirst).value := by
  have faithful : tangle.Faithful := Snapshot.faithful_ofLists _ _
  have searched := manySteps_breadthFirst faithful 2 leaving ⟨none, none⟩ atFirst
  refine ⟨faithful, _, searched.ends, rfl, ?_⟩
  rw [searched.settled (tangle.nodes.map Node.id).toFinset (by decide)
    (fun _ => Snapshot.answered_ofLists) (by decide) 4294967295 ⟨none, none⟩ rfl (by decide)]

theorem farEnd_of_mem_steps (faithful : graph.Faithful) {relationship : RelationshipPattern}
    {node : Node} {step : Step} (member : step ∈ steps graph relationship node) :
    farEnd step.edge node.id = step.node.id := by
  rw [← map_placedSteps] at member
  obtain ⟨placed, found, rfl⟩ := List.mem_map.mp member
  exact (faithful _ _ (mem_placedSteps.mp found).reached).symm

theorem value_manySteps_single {range : HopRange} {maxDepth : Nat} (lower : least range ≤ 1)
    (upper : most maxDepth range = 1) :
    (manySteps graph maxDepth hop range current).value =
      ((Trail.start current.anchor).extensions graph hop.relationship).filterMap
        (Trail.result? hop current) := by
  have fewest : Nat.max 1 (least range) = 1 := Nat.max_eq_left lower
  rw [value_manySteps_grown, fewest, upper]
  simp [Trail.grown]

/-- Over at most one edge, a hop of variable length finds what a plain one does, apart from the
node that it starts from. -/
theorem manySteps_eq_filter_oneStep (faithful : graph.Faithful) (maxDepth : Nat) {range : HopRange}
    (lower : ∀ min ∈ range.min, min ≤ 1) (upper : range.max = some 1)
    (free : hop.relationship.binder.bind current.bindings.element? = none) :
    (manySteps graph maxDepth hop range current).value =
      (oneStep graph hop current).value.filter fun result =>
        result.anchor.id ≠ current.anchor.id := by
  have low : least range ≤ 1 := by
    unfold least
    cases written : range.min with
    | none => exact Nat.zero_le 1
    | some min => exact lower min written
  have single : most maxDepth range = 1 := by
    rw [most, upper]
    rfl
  have unbound (edge : Edge) :
      current.bindings.allows hop.relationship.binder (.edge edge) = true := by
    rw [Bindings.allows, free]
  rw [value_manySteps_single low single, value_oneStep, Trail.extensions,
    List.filterMap_filterMap, List.filter_filterMap]
  refine List.filterMap_congr fun step member => ?_
  have far : farEnd step.edge (Trail.start current.anchor).node.id = step.node.id :=
    farEnd_of_mem_steps faithful member
  rw [far, unbound, Bool.and_true]
  -- A trail from the node does not come back to it; a single step may.
  by_cases same : step.node.id = current.anchor.id
  · cases current.admitsNode hop.node step.node <;>
      simp [Trail.start, same, Partial.extend, Option.filter]
  · cases admitted : current.admitsNode hop.node step.node <;>
      simp [Trail.start, Trail.result?, same, admitted, Partial.extend, Option.filter]

/-- The link from the first node to itself is left out. -/
theorem manySteps_eq_filter_oneStep_tangle :
    (manySteps tangle 15 leaving ⟨some 0, some 1⟩ atFirst).value =
        (oneStep tangle leaving atFirst).value.filter
          (fun result => result.anchor.id ≠ atFirst.anchor.id) ∧
      (manySteps tangle 15 leaving ⟨some 0, some 1⟩ atFirst).value.map
          (fun result => result.anchor.id) = ["b", "b", "b"] ∧
      (oneStep tangle leaving atFirst).value.map
          (fun result => result.anchor.id) = ["a", "b", "b", "b"] :=
  ⟨manySteps_eq_filter_oneStep (Snapshot.faithful_ofLists _ _) 15 (by simp) rfl rfl, rfl, rfl⟩

end DocumentGraph.Match
