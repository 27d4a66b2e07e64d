import DocumentGraph.Proofs.Graph.Change
import DocumentGraph.Proofs.Match.Breadth
import Mathlib.Data.ENat.Lattice

namespace DocumentGraph.Match

open Query (Hop HopRange Identifier NodePattern Pattern RelationshipPattern)

/-! Distances between nodes.

The distance from a node to another is the length of a shortest walk along the edges that a
relationship asks for.  A walk may come to a node again, but then a part of it is a shorter walk
to the same end; so a shortest walk is among the paths that a hop of variable length finds, and
the hop finds nearer nodes first.
-/

variable {graph : Graph} {relationship : RelationshipPattern} {source target node : Node}
  {length : Nat} {choice : HopChoice}

/-- The length of a shortest walk, `⊤` where there is none. -/
noncomputable def distance (graph : Graph) (relationship : RelationshipPattern)
    (source target : Node) : ℕ∞ :=
  ⨅ walk : { crossings // Leads graph relationship source { crossings, node := target } },
    (walk.val.length : ℕ∞)

theorem distance_le_iff {most : Nat} :
    distance graph relationship source target ≤ most ↔
      ∃ crossings, Leads graph relationship source { crossings, node := target } ∧
        crossings.length ≤ most := by
  rw [← ENat.lt_natCast_add_one_iff, distance, iInf_lt_iff]
  simp [ENat.lt_natCast_add_one_iff]

/-- A path can be cut at every node that it comes to. -/
theorem Reaches.cut (indexed : graph.Indexed) (begins : source ∈ graph.nodes.toList)
    (stored : node ∈ graph.nodes.toList) (reaches : Reaches graph relationship source length choice)
    (crossed : node.id ∈ visited source choice.crossings) :
    ∃ shorter ≤ length, ∃ part, Reaches graph relationship source shorter part ∧
      part.node = node := by
  induction length generalizing choice with
  | zero =>
      obtain rfl := (reaches_zero_iff indexed begins).mp reaches
      have same : node = source :=
        indexed.node_eq_of_id stored begins (by simpa [visited] using crossed)
      exact ⟨0, Nat.le_refl 0, _, reaches, same.symm⟩
  | succ length ih =>
      obtain ⟨before, crossing, next, earlier, takes, _, rfl⟩ :=
        (reaches_succ_iff indexed).mp reaches
      rw [HopChoice.extend, visited_concat, ← takes.arrives, List.mem_append] at crossed
      rcases crossed with inside | last
      · obtain ⟨shorter, le, part⟩ := ih earlier inside
        exact ⟨shorter, Nat.le_succ_of_le le, part⟩
      · have same : node = next :=
          indexed.node_eq_of_id stored takes.node (List.mem_singleton.mp last)
        exact ⟨length + 1, Nat.le_refl _, _, reaches, same.symm⟩

/-- No walk is shorter than the shortest path to the same node. -/
theorem exists_reaches_of_leads (indexed : graph.Indexed) (begins : source ∈ graph.nodes.toList)
    {crossings : List Crossing} (leads : Leads graph relationship source { crossings, node }) :
    ∃ length ≤ crossings.length, ∃ choice, Reaches graph relationship source length choice ∧
      choice.node = node := by
  induction crossings using List.reverseRecOn generalizing node with
  | nil =>
      have same : node = source := (leads_nil_iff indexed begins).mp leads
      exact ⟨0, Nat.le_refl 0, { crossings := [], node := source },
        (reaches_zero_iff indexed begins).mpr rfl, same.symm⟩
  | append_singleton crossings last ih =>
      obtain ⟨middle, before, takes⟩ := (leads_extend_iff indexed).mp leads
      obtain ⟨length, le, choice, reaches, rfl⟩ := ih before
      rw [List.length_append, List.length_singleton]
      by_cases known : node.id ∈ visited source choice.crossings
      · obtain ⟨shorter, shorterLe, part⟩ := reaches.cut indexed begins takes.node known
        exact ⟨shorter, by omega, part⟩
      · exact ⟨length + 1, by omega, choice.extend last node, (reaches_succ_iff indexed).mpr
          ⟨choice, last, node, reaches, takes, known, rfl⟩, rfl⟩

/-- The ends of the trails of one length. -/
def ends (graph : Graph) (relationship : RelationshipPattern) (source : Node) (length : Nat) :
    List Node :=
  (Trail.grown graph.snapshot relationship length [Trail.start source]).map Trail.node

theorem mem_ends (indexed : graph.Indexed) (begins : source ∈ graph.nodes.toList) :
    node ∈ ends graph relationship source length ↔
      ∃ choice, Reaches graph relationship source length choice ∧ choice.node = node := by
  have found : Enumerates (ends graph relationship source length)
      (Reaches graph relationship source length) HopChoice.node :=
    (grown_enumerates indexed begins length).map Trail.node
  constructor
  · intro member
    obtain ⟨choice, reaches, same⟩ := found.exists_of_mem member
    exact ⟨choice, reaches, same.symm⟩
  · intro reached
    obtain ⟨choice, reaches, rfl⟩ := reached
    exact found.mem_of_allowed reaches

theorem distance_le_iff_ends (indexed : graph.Indexed) (begins : source ∈ graph.nodes.toList)
    {most : Nat} : distance graph relationship source node ≤ most ↔
      ∃ length ≤ most, node ∈ ends graph relationship source length := by
  rw [distance_le_iff]
  constructor
  · intro walk
    obtain ⟨crossings, leads, le⟩ := walk
    obtain ⟨length, shorter, reached⟩ := exists_reaches_of_leads indexed begins leads
    exact ⟨length, shorter.trans le, (mem_ends indexed begins).mpr reached⟩
  · intro reached
    obtain ⟨length, le, member⟩ := reached
    obtain ⟨choice, reaches, rfl⟩ := (mem_ends indexed begins).mp member
    exact ⟨choice.crossings, reaches.leads, reaches.length.trans_le le⟩

/-- A path with edges leads to a node other than the one that it starts from. -/
theorem ne_source_of_mem_ends (indexed : graph.Indexed) (begins : source ∈ graph.nodes.toList)
    (member : node ∈ ends graph relationship source (length + 1)) : node ≠ source := by
  obtain ⟨choice, reaches, rfl⟩ := (mem_ends indexed begins).mp member
  obtain ⟨before, crossing, next, _, _, fresh, rfl⟩ := (reaches_succ_iff indexed).mp reaches
  intro same
  exact fresh (by simp [visited, ← same, HopChoice.extend])

section Within

variable {most : Nat}

/-- The ends of the trails that have an edge and at most some number of them. -/
def within (graph : Graph) (relationship : RelationshipPattern) (source : Node) (most : Nat) :
    List Node :=
  (List.range' 1 most).flatMap (ends graph relationship source)

theorem mem_within (indexed : graph.Indexed) (begins : source ∈ graph.nodes.toList) :
    node ∈ within graph relationship source most ↔ node ∈ graph.nodes.toList ∧ node ≠ source ∧
      distance graph relationship source node ≤ most := by
  simp only [within, List.mem_flatMap, List.mem_range'_1]
  constructor
  · intro found
    obtain ⟨length, inside, member⟩ := found
    obtain ⟨earlier, rfl⟩ : ∃ earlier, length = earlier + 1 := ⟨length - 1, by omega⟩
    have stored : node ∈ graph.nodes.toList := by
      obtain ⟨choice, reaches, rfl⟩ := (mem_ends indexed begins).mp member
      exact reaches.leads.node
    exact ⟨stored, ne_source_of_mem_ends indexed begins member,
      (distance_le_iff_ends indexed begins).mpr ⟨earlier + 1, by omega, member⟩⟩
  · intro wanted
    obtain ⟨_, other, near⟩ := wanted
    obtain ⟨length, le, member⟩ := (distance_le_iff_ends indexed begins).mp near
    have crossed : length ≠ 0 := by
      intro none
      subst none
      exact other (List.mem_singleton.mp member)
    exact ⟨length, by omega, member⟩

/-- A node comes before all that are farther away. -/
theorem idxOf_within_lt (indexed : graph.Indexed) (begins : source ∈ graph.nodes.toList)
    {near far : Node} (found : near ∈ within graph relationship source most)
    (farther : distance graph relationship source near < distance graph relationship source far) :
    (within graph relationship source most).idxOf near <
      (within graph relationship source most).idxOf far := by
  obtain ⟨stored, other, le⟩ := (mem_within indexed begins).mp found
  obtain ⟨nearest, same, inside⟩ := ENat.le_natCast_iff.mp le
  have split : within graph relationship source most =
      within graph relationship source nearest ++
        (List.range' (1 + nearest) (most - nearest)).flatMap (ends graph relationship source) := by
    have lengths : most = nearest + (most - nearest) := by omega
    rw [within, within, ← List.flatMap_append, List.range'_append_1, ← lengths]
  have early : near ∈ within graph relationship source nearest :=
    (mem_within indexed begins).mpr ⟨stored, other, same.le⟩
  have late : far ∉ within graph relationship source nearest := by
    intro member
    have reached := ((mem_within indexed begins).mp member).2.2
    exact absurd (reached.trans same.ge) farther.not_ge
  rw [split, List.idxOf_append_of_mem early, List.idxOf_append_of_notMem late]
  have place := List.idxOf_lt_length_of_mem early
  omega

end Within

section Chain

variable {a b : Identifier} {maxDepth : Nat} {range : HopRange}

def leadingTo (b : Identifier) (relationship : RelationshipPattern) : Hop where
  relationship
  node := { binder := some b }

/-- `(a)-[..]->(b)`, in some direction. -/
def chain (a b : Identifier) (relationship : RelationshipPattern) : Pattern where
  start := { binder := some a }
  hops := [leadingTo b relationship]

def startingAt (a : Identifier) (source : Node) : Partial where
  bindings := [(a.name, .node source)]
  anchor := source

def pair (a b : Identifier) (source target : Node) : Bindings :=
  [(a.name, .node source), (b.name, .node target)]

theorem result?_leadingTo (unnamed : relationship.binder = none) (apart : a.name ≠ b.name)
    {trail : Trail} (crossed : trail.edges ≠ []) :
    trail.result? (leadingTo b relationship) (startingAt a source) =
      some { bindings := pair a b source trail.node, anchor := trail.node } := by
  obtain ⟨last, earlier, edges⟩ := List.exists_cons_of_ne_nil crossed
  have other : (b.name == a.name) = false := by simpa using apart.symm
  have free : (startingAt a source).bindings.element? b = none := by
    simp [startingAt, Bindings.element?, List.lookup_cons, other]
  have admitted : (startingAt a source).admitsNode (leadingTo b relationship).node trail.node =
      true := by
    rw [Partial.admitsNode, Bindings.allows, leadingTo, Option.bind_some, free]
    rfl
  rw [Trail.result?, edges, List.head?_cons, Option.bind_some, if_pos admitted]
  simp [Partial.extend, leadingTo, startingAt, pair, Bindings.bind, unnamed, Ordered.put, apart]

theorem value_manySteps_leadingTo (unnamed : relationship.binder = none) (apart : a.name ≠ b.name)
    (lower : least range ≤ 1) :
    ((manySteps graph.snapshot maxDepth (leadingTo b relationship) range
        (startingAt a source)).value).map Partial.bindings =
      (within graph relationship source (most maxDepth range)).map (pair a b source) := by
  have fewest : Nat.max 1 (least range) = 1 := Nat.max_eq_left lower
  rw [value_manySteps_grown, fewest, Nat.add_sub_cancel, within, List.map_flatMap, List.map_flatMap]
  refine List.flatMap_congr fun length member => ?_
  have found : (Trail.grown graph.snapshot relationship length [Trail.start source]).filterMap
        (Trail.result? (leadingTo b relationship) (startingAt a source)) =
      (Trail.grown graph.snapshot relationship length [Trail.start source]).map fun trail =>
        { bindings := pair a b source trail.node, anchor := trail.node } := by
    rw [← List.filterMap_eq_map]
    refine List.filterMap_congr fun trail inside => ?_
    have edges := length_edges_of_mem_grown inside
    have counted := (List.mem_range'_1.mp member).1
    exact result?_leadingTo unnamed apart (List.ne_nil_of_length_pos (by omega))
  rw [ends, List.map_map]
  exact (congrArg (List.map Partial.bindings) found).trans List.map_map

theorem value_patterns_chain (ranged : relationship.range = some range)
    (unnamed : relationship.binder = none) (apart : a.name ≠ b.name) (lower : least range ≤ 1) :
    (Match.patterns graph.snapshot maxDepth [chain a b relationship]).value =
      graph.nodes.toList.flatMap fun source =>
        (within graph relationship source (most maxDepth range)).map (pair a b source) := by
  have free : (chain a b relationship).start.binder.bind (Bindings.element? []) = none := rfl
  have all : (graph.snapshot.nodes.filter fun node =>
      (satisfies node (chain a b relationship).start).value) = graph.nodes.toList :=
    List.filter_eq_self.mpr fun _ _ => rfl
  rw [value_patterns, List.foldl_cons, List.foldl_nil, List.flatMap_singleton, value_pattern,
    value_starts_free free, all, chain, List.foldl_cons, List.foldl_nil, List.flatMap_map,
    List.map_flatMap]
  refine List.flatMap_congr fun source _ => ?_
  have hop : Match.hop graph.snapshot maxDepth (leadingTo b relationship) =
      manySteps graph.snapshot maxDepth (leadingTo b relationship) range := by
    funext current
    rw [Match.hop, leadingTo, ranged]
  rw [hop]
  exact value_manySteps_leadingTo unnamed apart lower

/-- The pairs with one first node, among those of nodes that are listed once. -/
theorem filter_flatMap_pair {nodes : List Node} (distinct : nodes.Nodup) (begins : source ∈ nodes)
    (found : Node → List Node) :
    (nodes.flatMap fun first => (found first).map (pair a b first)).filter
        (fun bindings => bindings.element? a = some (.node source)) =
      (found source).map (pair a b source) := by
  have starts (first target : Node) :
      (pair a b first target).element? a = some (.node source) ↔ first = source := by
    simp [pair, Bindings.element?]
  have others {nodes : List Node} (absent : source ∉ nodes) :
      (nodes.flatMap fun first => (found first).map (pair a b first)).filter
        (fun bindings => bindings.element? a = some (.node source)) = [] := by
    rw [List.filter_eq_nil_iff]
    intro bindings member
    obtain ⟨first, listed, paired⟩ := List.mem_flatMap.mp member
    obtain ⟨target, _, rfl⟩ := List.mem_map.mp paired
    rw [decide_eq_true_eq, starts]
    intro same
    exact absent (same ▸ listed)
  obtain ⟨before, behind, rfl⟩ := List.append_of_mem begins
  have absent := (List.nodup_cons.mp (List.nodup_middle.mp distinct)).1
  rw [List.mem_append, not_or] at absent
  obtain ⟨notBefore, notBehind⟩ := absent
  rw [List.flatMap_append, List.flatMap_cons, List.filter_append, List.filter_append,
    others notBefore, others notBehind, List.nil_append, List.append_nil]
  refine List.filter_eq_self.mpr fun bindings member => ?_
  obtain ⟨target, _, rfl⟩ := List.mem_map.mp member
  rw [decide_eq_true_eq, starts]

/-- The nodes that a chain finds from a node are those within its upper bound, apart from the node
itself, and nearer ones come first. -/
theorem patterns_within_distance (changes : List Graph.Change) (maxDepth : Nat)
    (relationship : RelationshipPattern) (a b : Identifier) (source : Node)
    (ranged : relationship.range = some range) (unnamed : relationship.binder = none)
    (lower : least range ≤ 1) (apart : a.name ≠ b.name)
    (begins : source ∈ (Graph.ofChanges changes).nodes.toList) :
    ∃ found : List Node,
      (Match.patterns (Graph.ofChanges changes).snapshot maxDepth
          [chain a b relationship]).value.filter
          (fun bindings => bindings.element? a = some (.node source)) =
        found.map (pair a b source) ∧
      (∀ node, node ∈ found ↔ node ∈ (Graph.ofChanges changes).nodes.toList ∧ node ≠ source ∧
        distance (Graph.ofChanges changes) relationship source node ≤ most maxDepth range) ∧
      ∀ near far, near ∈ found →
        distance (Graph.ofChanges changes) relationship source near <
          distance (Graph.ofChanges changes) relationship source far →
        found.idxOf near < found.idxOf far := by
  have indexed := Graph.indexed_ofChanges changes
  have distinct : (Graph.ofChanges changes).nodes.toList.Nodup :=
    List.Nodup.of_map Node.id indexed.nodes.nodup
  refine ⟨within (Graph.ofChanges changes) relationship source (most maxDepth range), ?_,
    fun node => mem_within indexed begins,
    fun near far found farther => idxOf_within_lt indexed begins found farther⟩
  rw [value_patterns_chain ranged unnamed apart lower]
  exact filter_flatMap_pair distinct begins _

end Chain

/-- Two ways around from `w` to `z`, and one back. -/
def square : List Graph.Change :=
  let link (source target : String) : Graph.Change :=
    .edge { id := source ++ "-" ++ target, type := "LINKS_TO", source, target }
  [.node { id := "w" }, .node { id := "x" }, .node { id := "y" }, .node { id := "z" },
    link "w" "x", link "x" "z", link "w" "y", link "y" "z", link "z" "w"]

def links : RelationshipPattern where
  direction := .forward
  range := some ⟨some 0, some 2⟩

/-- The node across is found for both ways to it, behind the nodes between. -/
theorem patterns_within_distance_square :
    ∃ found : List Node,
      (Match.patterns (Graph.ofChanges square).snapshot 15
          [chain ⟨"a", {}⟩ ⟨"b", {}⟩ links]).value.filter
          (fun bindings => bindings.element? ⟨"a", {}⟩ = some (.node { id := "w" })) =
        found.map (pair ⟨"a", {}⟩ ⟨"b", {}⟩ { id := "w" }) ∧
      found.map Node.id = ["x", "y", "z", "z"] ∧
      distance (Graph.ofChanges square) links { id := "w" } { id := "z" } ≤ 2 := by
  obtain ⟨found, matched, reached, _⟩ := patterns_within_distance square 15 links ⟨"a", {}⟩
    ⟨"b", {}⟩ { id := "w" } rfl rfl (by decide) (by decide) (List.Mem.head _)
  have once : Function.Injective (pair ⟨"a", {}⟩ ⟨"b", {}⟩ { id := "w" }) :=
    fun left right same => by simpa [pair] using same
  have nodes : found = [{ id := "x" }, { id := "y" }, { id := "z" }, { id := "z" }] :=
    List.map_injective_iff.mpr once (matched.symm.trans rfl)
  subst nodes
  exact ⟨_, matched, rfl, ((reached { id := "z" }).mp (by decide)).2.2⟩

end DocumentGraph.Match
