import DocumentGraph.Proofs.Document.Build

namespace DocumentGraph.Document

open FileTree (NamedBy)

/-! Which skill an edge belongs to.

The skill of a node is the first part of its id.  So the dependencies of a graph are its links from
one skill into another, and the index and the entry document of a skill are reached from the node of
that skill and from no other.
-/

variable {options : Options} {entries : List (FileName × FileTree)} {node origin : Node}
  {place : Place} {content skill source type target label stem : String} {p : String → Prop}

/-- Only the text of a document asks for a link. -/
theorem exists_asks_iff (known : ∀ type, p type → type ∈ linkTypes) :
    (∃ type, p type ∧ Asks options entries source type target) ↔
      ∃ place content, options.Holds entries place content ∧ place.id = source ∧
        ∃ edge ∈ edges (place.node options content) (FrontMatter.split content.toList).body,
          p edge.type ∧ edge.target = target := by
  constructor
  · rintro ⟨type, holdsType, ⟨place, content, holds, edge, member, leaving, rfl, reached⟩ |
      ⟨_, _, _, _, _, listed⟩⟩
    · have leaves := (leaves_of_mem_edges member).source
      rw [Place.node_id, leaving] at leaves
      exact ⟨place, content, holds, leaves.symm, edge, member, holdsType, reached⟩
    · have apart : ∀ placed ∈ placements source, placed.1 ∉ linkTypes := by
        simp [placements, linkTypes]
      exact absurd (known type holdsType) (apart _ listed)
  · rintro ⟨place, content, holds, rfl, edge, member, holdsType, reached⟩
    have leaves := (leaves_of_mem_edges member).source
    rw [Place.node_id] at leaves
    exact ⟨edge.type, holdsType, .inl ⟨place, content, holds, edge, member, leaves, rfl, reached⟩⟩

/-- A document depends on another node just if it links to it and their skills differ. -/
theorem joins_dependsOn_iff (named : NamedBy Plain entries)
    (present : NodeOf options entries origin) (present' : NodeOf options entries node) :
    (build options entries).Joins origin.id "DEPENDS_ON" node.id ↔
      origin.skill ≠ node.skill ∧ ((build options entries).Joins origin.id "LINKS_TO" node.id ∨
        (build options entries).Joins origin.id "REFERENCES" node.id) := by
  have here := present'.exists_id_eq named
  have depends : Asks options entries origin.id "DEPENDS_ON" node.id ↔
      ∃ type, type = "DEPENDS_ON" ∧ Asks options entries origin.id type node.id := by simp
  have links : Asks options entries origin.id "LINKS_TO" node.id ∨
      Asks options entries origin.id "REFERENCES" node.id ↔
      ∃ type, type ∈ ["LINKS_TO", "REFERENCES"] ∧ Asks options entries origin.id type node.id := by
    simp
  have skills {place : Place} {content : String} (holds : options.Holds entries place content)
      (same : place.id = origin.id) : (place.node options content).skill = origin.skill := by
    rw [Place.node_skill, ← holds.skillOf_id named, same, present.skillOf_id named]
  simp only [joins_build named, here, true_and]
  rw [depends, links, exists_asks_iff (by simp [linkTypes]), exists_asks_iff (by simp [linkTypes])]
  constructor
  · rintro ⟨place, content, holds, same, depending⟩
    obtain ⟨foreign, linked⟩ := (crosses_edges _ _ _).mp depending
    rw [skills holds same, present'.skillOf_id named] at foreign
    exact ⟨foreign.symm, place, content, holds, same, linked⟩
  · rintro ⟨foreign, place, content, holds, same, linked⟩
    refine ⟨place, content, holds, same, (crosses_edges _ _ _).mpr ⟨?_, linked⟩⟩
    rw [skills holds same, present'.skillOf_id named]
    exact foreign.symm

/-- An edge type that leads from a skill to one of its documents, with the label of that document
and the stem of its file. -/
structure Placement where
  type : String
  label : String
  stem : String

def Placement.all : List Placement :=
  [{ type := "HAS_INDEX", label := "Index", stem := "index" },
    { type := "HAS_ENTRYPOINT", label := "Entrypoint", stem := "SKILL" }]

variable {placement : Placement}

theorem mem_placements_iff (known : placement ∈ Placement.all) :
    (placement.type, target) ∈ placements skill ↔
      target = Place.id { skill, directories := [], stem := placement.stem } := by
  rw [Place.id_top]
  rcases List.mem_pair.mp known with rfl | rfl
  all_goals simp [placements]

theorem labelOf_top (options : Options) (skill stem : String) :
    labelOf options (Place.path options { skill, directories := [], stem }) =
      if stem = "index" then "Index" else if stem = "SKILL" then "Entrypoint" else "Document" := by
  simp only [labelOf, Place.path, List.nil_append, String.append_left_inj]

/-- Only a document at the top of its skill has the label, and only under its name. -/
theorem labelOf_eq_iff (known : placement ∈ Placement.all) :
    labelOf options (place.path options) = placement.label ↔
      place.directories = [] ∧ place.stem = placement.stem := by
  obtain ⟨skill, directories, stem⟩ := place
  cases directories with
  | nil =>
      rw [labelOf_top]
      rcases List.mem_pair.mp known with rfl | rfl
      all_goals split_ifs <;> simp_all
  | cons directory directories =>
      have deeper : ∃ next rest, directories ++ [stem ++ options.suffix] = next :: rest :=
        List.exists_cons_of_ne_nil (List.append_ne_nil_of_right_ne_nil _ (List.cons_ne_nil _ _))
      obtain ⟨next, rest, same⟩ := deeper
      simp only [Place.path, List.cons_append, same, reduceCtorEq, false_and, iff_false]
      rcases List.mem_pair.mp known with rfl | rfl
      all_goals
        unfold labelOf
        split <;> simp_all

section Named

variable (named : NamedBy Plain entries)

include named

theorem hasLabel_iff (known : placement ∈ Placement.all) (present : NodeOf options entries node) :
    node.hasLabel placement.label = true ↔
      node.id = Place.id { skill := node.skill, directories := [], stem := placement.stem } := by
  cases present with
  | skill stored followed =>
      refine iff_of_false ?_ ?_
      · rcases List.mem_pair.mp known with rfl | rfl
        all_goals simp [Node.hasLabel, skillNode]
      · rw [Place.id_top]
        intro same
        have longer := congrArg String.length same
        simp [skillNode] at longer
  | @document place content holds =>
      rw [Place.node_id, Place.node_skill, Node.hasLabel, Place.node_labels,
        List.contains_iff_mem, List.mem_singleton, eq_comm, labelOf_eq_iff known]
      constructor
      · rintro ⟨top, stem⟩
        rw [Place.id, top, stem]
        rfl
      · intro same
        have plain := fun name member => (holds.plain named name member).1
        have stem : '/' ∉ placement.stem.toList := by
          rcases List.mem_pair.mp known with rfl | rfl <;> decide
        have parts := joined_inj plain (List.forall_mem_cons.mpr
          ⟨plain _ List.mem_cons_self, List.forall_mem_singleton.mpr stem⟩)
          (List.cons_ne_nil _ _) (List.cons_ne_nil _ _) same
        have behind : place.directories ++ [place.stem] = [] ++ [placement.stem] :=
          (List.cons.inj parts).2
        obtain ⟨top, stems⟩ := List.append_inj' behind rfl
        exact ⟨top, (List.cons.inj stems).1⟩

/-- Only a skill asks for the edge, and only to its own document. -/
theorem skillOf_of_asks (known : placement ∈ Placement.all)
    (asks : Asks options entries source placement.type target) :
    NodeOf options entries (skillNode source) ∧ skillOf target = source ∧
      target = Place.id { skill := source, directories := [], stem := placement.stem } := by
  rcases asks with
    ⟨_, _, _, edge, member, _, typed, _⟩ | ⟨name, below, stored, rfl, followed, listed⟩
  · have link := (leaves_of_mem_edges member).type
    have apart : ∀ placement ∈ Placement.all, placement.type ∉ linkTypes := by
      simp [Placement.all, linkTypes]
    exact absurd (typed ▸ link) (apart placement known)
  · have plain := (named.allowed_of_mem stored).1
    exact ⟨.skill stored followed, skillOf_of_mem_placements plain listed,
      (mem_placements_iff known).mp listed⟩

/-- An edge of the type leads from a skill to its document with the label. -/
theorem exists_ends (known : placement ∈ Placement.all)
    (joined : (build options entries).Joins source placement.type target) :
    ∃ origin node, NodeOf options entries origin ∧ NodeOf options entries node ∧
      origin.id = source ∧ node.id = target ∧ origin.hasLabel "Skill" = true ∧
      node.hasLabel placement.label = true ∧ origin.skill = node.skill := by
  obtain ⟨⟨node, present, rfl⟩, asks⟩ := (joins_build named).mp joined
  have present := nodeOf_of_mem_build named present
  obtain ⟨isSkill, owned, top⟩ := skillOf_of_asks named known asks
  rw [present.skillOf_id named] at owned
  refine ⟨skillNode source, node, isSkill, present, rfl, rfl, by simp [Node.hasLabel, skillNode],
    (hasLabel_iff named known present).mpr ?_, owned.symm⟩
  rw [owned]
  exact top

theorem joins_of_hasLabel (known : placement ∈ Placement.all)
    (present : NodeOf options entries node) (labelled : node.hasLabel placement.label = true) :
    (build options entries).Joins node.skill placement.type node.id := by
  obtain ⟨⟨name, below⟩, isSkill, own⟩ := present.exists_directory named
  obtain ⟨stored, followed⟩ := mem_skills.mp isSkill
  have skill : node.skill = name.shown := (nodeOf_of_mem_skillNodes named isSkill own).2
  have top := (hasLabel_iff named known present).mp labelled
  rw [skill] at top ⊢
  exact (joins_build named).mpr ⟨present.exists_id_eq named,
    .inr ⟨name, below, stored, rfl, followed, (mem_placements_iff known).mpr top⟩⟩

/-- Into a document with the label there is one edge of the type. -/
theorem exists_filter_eq (known : placement ∈ Placement.all)
    (present : NodeOf options entries node) (labelled : node.hasLabel placement.label = true) :
    ∃ edge, ((build options entries).edges.toList.filter fun edge =>
      edge.type = placement.type ∧ edge.target = node.id) = [edge] := by
  obtain ⟨edge, stored, leaving, typed, reached⟩ := joins_of_hasLabel named known present labelled
  have triples : ((build options entries).edges.toList.map fun edge =>
      (edge.source, edge.type, edge.target)).Nodup := nodup_triples_build named
  have alike {other : Edge} (stored' : other ∈ (build options entries).edges.toList)
      (typed' : other.type = placement.type) (reached' : other.target = node.id) :
      other = edge := by
    have joined : (build options entries).Joins other.source placement.type node.id :=
      ⟨other, stored', rfl, typed', reached'⟩
    obtain ⟨_, owned, _⟩ := skillOf_of_asks named known ((joins_build named).mp joined).2
    rw [present.skillOf_id named] at owned
    refine List.inj_on_of_nodup_map triples stored' stored ?_
    rw [typed', reached', typed, reached, leaving, owned]
  refine ⟨edge, List.perm_singleton.mp ((List.perm_ext_iff_of_nodup
    (triples.of_map.filter _) (List.nodup_singleton _)).mpr fun other => ?_)⟩
  rw [List.mem_filter, List.mem_singleton, decide_eq_true_iff]
  constructor
  · rintro ⟨stored', typed', reached'⟩
    exact alike stored' typed' reached'
  · rintro rfl
    exact ⟨stored, typed, reached⟩

end Named

/-- In the graph of a tree, the dependencies are the links between skills.  The edges to the
indices and to the entry documents come from their own skills, one for each. -/
theorem buildAt_dependencies {path : String} {tree : FileTree} {graph : Graph}
    (named : NamedBy Plain tree.entries)
    (built : buildAt options path (some tree) = .ok graph) :
    (∀ origin ∈ graph.nodes.toList, ∀ node ∈ graph.nodes.toList,
      graph.Joins origin.id "DEPENDS_ON" node.id ↔ origin.skill ≠ node.skill ∧
        (graph.Joins origin.id "LINKS_TO" node.id ∨ graph.Joins origin.id "REFERENCES" node.id)) ∧
    ∀ placement ∈ Placement.all,
      (∀ edge ∈ graph.edges.toList, edge.type = placement.type →
        ∃ origin ∈ graph.nodes.toList, ∃ node ∈ graph.nodes.toList,
          origin.id = edge.source ∧ node.id = edge.target ∧ origin.hasLabel "Skill" = true ∧
          node.hasLabel placement.label = true ∧ origin.skill = node.skill) ∧
      ∀ node ∈ graph.nodes.toList, node.hasLabel placement.label = true →
        ∃ edge, (graph.edges.toList.filter fun edge =>
          edge.type = placement.type ∧ edge.target = node.id) = [edge] := by
  cases tree with
  | file bytes => contradiction
  | directory entries =>
      obtain rfl := Except.ok.inj built
      have known {node : Node} (member : node ∈ (build options entries).nodes.toList) :
          NodeOf options entries node :=
        nodeOf_of_mem_build named member
      constructor
      · intro origin member node member'
        exact joins_dependsOn_iff named (known member) (known member')
      · intro placement listed
        refine ⟨fun edge stored typed => ?_, fun node member labelled =>
          exists_filter_eq named listed (known member) labelled⟩
        obtain ⟨origin, node, present, present', leaving, reached, isSkill, labelled, owned⟩ :=
          exists_ends named listed ⟨edge, stored, rfl, typed, rfl⟩
        -- The graph may hold other nodes at the same places.
        obtain ⟨origin', member, same⟩ := present.exists_mem_build named
        obtain ⟨node', member', same'⟩ := present'.exists_mem_build named
        obtain ⟨ids, labels, skills⟩ := eq_of_bare same
        obtain ⟨ids', labels', skills'⟩ := eq_of_bare same'
        refine ⟨origin', member, node', member', ids.trans leaving, ids'.trans reached, ?_, ?_,
          skills.trans (owned.trans skills'.symm)⟩
        · rwa [Node.hasLabel, labels]
        · rwa [Node.hasLabel, labels']

theorem buildAt_dependencies_linkedSkills :
    NamedBy Plain (FileTree.directory linkedSkills).entries ∧
    ∃ graph, buildAt {} "skills" (some (.directory linkedSkills)) = .ok graph ∧
      graph.Joins "alpha/index" "DEPENDS_ON" "beta/SKILL" ∧
      ∃ edge, (graph.edges.toList.filter fun edge =>
        edge.type = "HAS_INDEX" ∧ edge.target = "alpha/index") = [edge] := by
  have named : NamedBy Plain (FileTree.directory linkedSkills).entries :=
    namedBy_linkedSkills.mono fun _ both => both.2
  have built : buildAt {} "skills" (some (.directory linkedSkills)) =
    .ok (build {} linkedSkills) := rfl
  obtain ⟨dependencies, placed⟩ := buildAt_dependencies named built
  have index := (mem_nodes_build_iff namedBy_linkedSkills).mpr (.document holds_alphaIndex.holds)
  have entry := (mem_nodes_build_iff namedBy_linkedSkills).mpr (.document holds_betaEntry.holds)
  have links : (build {} linkedSkills).Joins "alpha/index" "LINKS_TO" "beta/SKILL" :=
    (joins_build named).mpr ⟨⟨_, entry, Place.node_id⟩, asks_linkedSkills⟩
  have depends := dependencies _ index _ entry
  have single := (placed _ (.head _)).2 _ index
  rw [Place.node_id] at single
  rw [Place.node_id, Place.node_id, Place.node_skill, Place.node_skill] at depends
  refine ⟨named, _, built, depends.mpr ⟨by decide, .inl links⟩, single ?_⟩
  rw [Node.hasLabel, Place.node_labels]
  decide

end DocumentGraph.Document
