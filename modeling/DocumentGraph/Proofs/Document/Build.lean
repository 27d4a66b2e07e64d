import DocumentGraph.Proofs.Document.Scan

namespace DocumentGraph.Document

open FileTree (FileAt NamedBy)
open DocumentGraph.Graph (assemble)

/-! What a build makes of a tree.

Which nodes and edges a graph has can be said without the order in which the skills and documents
are looked at.
-/

variable {options : Options} {entries below : List (FileName × FileTree)} {skill : String}
  {node : Node} {edge : Edge} {directory : FileName × List (FileName × FileTree)}

/-- An edge that a tree asks for: a link in the text of a document, or the edge from a skill to
its entry document or its index. -/
def Asks (options : Options) (entries : List (FileName × FileTree)) (source type target : String) :
    Prop :=
  (∃ place content, options.Holds entries place content ∧
    ∃ edge ∈ edges (place.node options content) (FrontMatter.split content.toList).body,
      edge.source = source ∧ edge.type = type ∧ edge.target = target) ∨
  ∃ name below, (name, .directory below) ∈ entries ∧ name.shown = source ∧
    options.skips source = false ∧ (type, target) ∈ placements source

/-- An edge whose id tells its ends and its type. -/
structure Telling (edge : Edge) : Prop where
  id : edge.id = Edge.derivedId edge.source edge.type edge.target
  source : Undoubled edge.source.toList
  type : IsDashless edge.type

theorem Telling.eq_of_id {other : Edge} (telling : Telling edge) (telling' : Telling other)
    (same : edge.id = other.id) :
    edge.source = other.source ∧ edge.type = other.type ∧ edge.target = other.target := by
  rw [telling.id, telling'.id] at same
  exact derivedId_inj telling.source telling'.source telling.type telling'.type same

theorem isDashless_of_mem_placements {type target : String}
    (member : (type, target) ∈ placements skill) : IsDashless type := by
  rcases List.mem_pair.mp member with same | same
  · obtain ⟨rfl, _⟩ := Prod.mk.inj same
    exact ⟨by decide, by decide⟩
  · obtain ⟨rfl, _⟩ := Prod.mk.inj same
    exact ⟨by decide, by decide⟩

section Named

variable (named : NamedBy Plain entries)

include named

/-- An edge comes from the text of a document, or from a skill. -/
theorem link_or_placement (member : edge ∈ offered options [] (skills options entries)) :
    (∃ place content, options.Holds entries place content ∧
      edge ∈ edges (place.node options content) (FrontMatter.split content.toList).body) ∨
    ∃ directory ∈ skills options entries, ∃ type target,
      (type, target) ∈ placements directory.1.shown ∧
        edge = Edge.between directory.1.shown type target := by
  obtain ⟨before, directory, after, whole, member⟩ := mem_offered.mp member
  have known : directory ∈ skills options entries := by
    rw [whole]
    simp
  rcases List.mem_append.mp member with link | placed
  · obtain ⟨⟨node, body⟩, document, link⟩ := List.mem_flatMap.mp link
    obtain ⟨stored, followed⟩ := mem_skills.mp known
    obtain ⟨location, content, _, holds, rfl, rfl⟩ :=
      (mem_skillDocuments named stored followed).mp document
    exact .inl ⟨location.place, content, holds.holds, link⟩
  · obtain ⟨type, target, listed, _, same⟩ := mem_placeEdges.mp placed
    exact .inr ⟨directory, known, type, target, listed, same⟩

theorem mem_offered_of_link {place : Place} {content : String}
    (holds : options.Holds entries place content)
    (link : edge ∈ edges (place.node options content) (FrontMatter.split content.toList).body) :
    edge ∈ offered options [] (skills options entries) := by
  obtain ⟨location, rfl, holds⟩ := holds
  obtain ⟨directory, known, same⟩ := holds.exists_directory
  obtain ⟨stored, followed⟩ := mem_skills.mp known
  obtain ⟨before, after, whole⟩ := List.append_of_mem known
  have document := (mem_skillDocuments named stored followed).mpr
    ⟨location, content, same.symm, holds, rfl, rfl⟩
  exact mem_offered.mpr ⟨before, directory, after, whole,
    List.mem_append_left _ (List.mem_flatMap.mpr ⟨_, document, link⟩)⟩

omit named in
theorem mem_offered_of_placement {type : String} (known : directory ∈ skills options entries)
    (listed : (type, node.id) ∈ placements directory.1.shown)
    (own : node ∈ skillNodes options directory) :
    Edge.between directory.1.shown type node.id ∈ offered options [] (skills options entries) := by
  obtain ⟨before, after, whole⟩ := List.append_of_mem known
  refine mem_offered.mpr ⟨before, directory, after, whole, List.mem_append_right _ ?_⟩
  exact mem_placeEdges.mpr ⟨type, node.id, listed,
    List.mem_map_of_mem (List.mem_append_right _ own), rfl⟩

theorem telling_of_mem_offered (member : edge ∈ offered options [] (skills options entries)) :
    Telling edge := by
  rcases link_or_placement named member with
    ⟨place, content, holds, link⟩ | ⟨directory, known, type, target, listed, rfl⟩
  · have leaves := leaves_of_mem_edges link
    refine ⟨leaves.id, ?_, isDashless_of_mem_linkTypes leaves.type⟩
    rw [leaves.source]
    exact (NodeOf.document holds).undoubled_id named
  · exact ⟨rfl, (named.allowed_of_mem (mem_skills.mp known).1).2,
      isDashless_of_mem_placements listed⟩

theorem mem_edges_build (stored : edge ∈ (build options entries).edges.toList) :
    edge ∈ offered options [] (skills options entries) ∧
      edge.source ∈ (build options entries).nodes.toList.map Node.id ∧
      edge.target ∈ (build options entries).nodes.toList.map Node.id := by
  rw [build_eq named] at stored ⊢
  obtain ⟨member, source, target⟩ := Graph.offered_of_mem_edges stored
  exact ⟨member, Graph.mem_ids_assemble.mpr source, Graph.mem_ids_assemble.mpr target⟩

/-- An edge that a tree asks for is offered, if its target is a node, and its source is one. -/
theorem exists_offered_of_asks {source type : String}
    (asks : Asks options entries source type node.id) (present : NodeOf options entries node) :
    (∃ origin, NodeOf options entries origin ∧ origin.id = source) ∧
    ∃ edge ∈ offered options [] (skills options entries),
      edge.source = source ∧ edge.type = type ∧ edge.target = node.id := by
  rcases asks with
    ⟨place, content, holds, edge, link, same⟩ | ⟨name, below, stored, rfl, followed, listed⟩
  · have leaving := (leaves_of_mem_edges link).source.symm.trans same.1
    exact ⟨⟨_, .document holds, leaving⟩, edge, mem_offered_of_link named holds link, same⟩
  · -- The edge is offered by the directory in which its target is found.
    have plain := (named.allowed_of_mem stored).1
    obtain ⟨directory, known, own⟩ := present.exists_directory named
    have skill : directory.1.shown = name.shown := by
      rw [← (nodeOf_of_mem_skillNodes named known own).2, ← present.skillOf_id named]
      exact skillOf_of_mem_placements plain listed
    rw [← skill] at listed ⊢
    obtain ⟨stored, followed⟩ := mem_skills.mp known
    exact ⟨⟨_, .skill stored followed, rfl⟩, _, mem_offered_of_placement known listed own,
      rfl, rfl, rfl⟩

theorem joins_build {source type target : String} :
    (build options entries).Joins source type target ↔
      (∃ node ∈ (build options entries).nodes.toList, node.id = target) ∧
        Asks options entries source type target := by
  constructor
  · rintro ⟨edge, stored, rfl, rfl, rfl⟩
    obtain ⟨member, _, present⟩ := mem_edges_build named stored
    refine ⟨List.mem_map.mp present, ?_⟩
    rcases link_or_placement named member with
      ⟨place, content, holds, link⟩ | ⟨directory, known, type, target, listed, rfl⟩
    · exact .inl ⟨place, content, holds, edge, link, rfl, rfl, rfl⟩
    · obtain ⟨stored, followed⟩ := mem_skills.mp known
      exact .inr ⟨directory.1, directory.2, stored, rfl, followed, listed⟩
  · rintro ⟨⟨node, present, rfl⟩, asks⟩
    have here := nodeOf_of_mem_build named present
    obtain ⟨⟨origin, known, rfl⟩, edge, member, sources, types, targets⟩ :=
      exists_offered_of_asks named asks here
    have isNode {node : Node} (known : NodeOf options entries node) :
        node.id ∈ ((skills options entries).flatMap (skillNodes options)).map Node.id :=
      List.mem_map_of_mem ((mem_nodes named).mpr known)
    obtain ⟨kept, stored, same⟩ := Graph.exists_edge_assemble member
      (sources ▸ isNode known) (targets ▸ isNode here)
    have member' := (Graph.offered_of_mem_edges stored).1
    obtain ⟨sources', types', targets'⟩ :=
      (telling_of_mem_offered named member').eq_of_id (telling_of_mem_offered named member) same
    rw [build_eq named]
    exact ⟨kept, stored, sources'.trans sources, types'.trans types, targets'.trans targets⟩

/-- No two edges have the same type and ends. -/
theorem nodup_triples_build : ((build options entries).edges.toList.map fun edge =>
    (edge.source, edge.type, edge.target)).Nodup := by
  have derived : (build options entries).edges.toList.map Edge.id =
      ((build options entries).edges.toList.map fun edge =>
        (edge.source, edge.type, edge.target)).map
          fun (source, type, target) => Edge.derivedId source type target := by
    rw [List.map_map]
    exact List.map_congr_left fun edge stored =>
      (telling_of_mem_offered named (mem_edges_build named stored).1).id
  have indexed : (build options entries).Indexed := indexed_build named
  have distinct := indexed.edges.nodup
  rw [derived] at distinct
  exact distinct.of_map

end Named

section Texts

variable (named : NamedBy (fun name => name.IsText ∧ Plain name) entries)

include named

theorem Options.HoldsAt.eq_of_place {location location' : Location} {content content' : String}
    (holds : options.HoldsAt entries location content)
    (holds' : options.HoldsAt entries location' content')
    (same : location.place = location'.place) : location = location' := by
  rw [← holds.location_place named fun _ both => both.1, same,
    holds'.location_place named fun _ both => both.1]

theorem Options.Holds.content_eq {place : Place} {content content' : String}
    (holds : options.Holds entries place content)
    (holds' : options.Holds entries place content') : content = content' := by
  obtain ⟨location, rfl, holds⟩ := holds
  obtain ⟨location', same, holds'⟩ := holds'
  obtain rfl := holds'.eq_of_place named holds same
  exact holds.content_eq named holds'

/-- Where all names are texts, no node takes the place of another one. -/
theorem NodeOf.eq_of_id_of_texts {other : Node} (known : NodeOf options entries node)
    (known' : NodeOf options entries other) (same : node.id = other.id) : node = other := by
  have plain : NamedBy Plain entries := named.mono fun _ both => both.2
  rcases known.eq_of_id plain known' same with same | ⟨_, _, _, holds, holds', rfl, rfl⟩
  · exact same
  · rw [holds.content_eq named holds']

theorem mem_nodes_build_iff :
    node ∈ (build options entries).nodes.toList ↔ NodeOf options entries node := by
  have plain : NamedBy Plain entries := named.mono fun _ both => both.2
  have determined : ∀ node ∈ (skills options entries).flatMap (skillNodes options),
      ∀ other ∈ (skills options entries).flatMap (skillNodes options),
        node.id = other.id → node = other := fun _ first _ second same =>
    ((mem_nodes plain).mp first).eq_of_id_of_texts named ((mem_nodes plain).mp second) same
  rw [build_eq plain, Graph.mem_assemble_iff determined, mem_nodes plain]

end Texts

/-- The graph shows the tree: its nodes are the skills and the documents, its edges are those that
the tree asks for and whose targets are nodes. -/
structure Depicts (options : Options) (entries : List (FileName × FileTree)) (graph : Graph) :
    Prop where
  nodes : ∀ node, node ∈ graph.nodes.toList ↔ NodeOf options entries node
  ids : (graph.nodes.toList.map Node.id).Nodup
  /-- A document has one node, whose id is its path without the extension. -/
  documents : ∀ location content, options.HoldsAt entries location content →
    ∃! node, node ∈ graph.nodes.toList ∧ node.id ++ options.suffix =
      String.intercalate "/" ((location.path options).map FileName.shown)
  /-- Different documents have different ids. -/
  apart : ∀ location content location' content', options.HoldsAt entries location content →
    options.HoldsAt entries location' content' →
      location.place.id = location'.place.id → location = location'
  /-- Different skills have different ids. -/
  skills : ∀ name below name' below', (name, FileTree.directory below) ∈ entries →
    (name', FileTree.directory below') ∈ entries → name.shown = name'.shown → name = name'
  edges : ∀ source type target, graph.Joins source type target ↔
    (∃ node ∈ graph.nodes.toList, node.id = target) ∧ Asks options entries source type target
  triples : (graph.edges.toList.map fun edge => (edge.source, edge.type, edge.target)).Nodup
  ends : ∀ edge ∈ graph.edges.toList, (∃ node ∈ graph.nodes.toList, node.id = edge.source) ∧
    ∃ node ∈ graph.nodes.toList, node.id = edge.target

/-- A build succeeds on every directory and depicts it, if all names are texts and none has a slash
or two dashes side by side.  Whether a link is kept depends on its target alone, not on where the
two documents stand. -/
theorem buildAt_depicts (options : Options) (path : String)
    (named : NamedBy (fun name => name.IsText ∧ Plain name) entries) :
    ∃ graph, buildAt options path (some (.directory entries)) = .ok graph ∧
      Depicts options entries graph := by
  have plain : NamedBy Plain entries := named.mono fun _ both => both.2
  refine ⟨build options entries, rfl, {
    nodes := fun _ => mem_nodes_build_iff named
    ids := (indexed_build plain).nodes.nodup
    documents := ?_
    apart := ?_
    skills := ?_
    edges := fun _ _ _ => joins_build plain
    triples := nodup_triples_build plain
    ends := ?_ }⟩
  · intro location content holds
    have known : NodeOf options entries (location.place.node options content) :=
      .document holds.holds
    rw [location.map_shown_path, location.place.joined_path]
    refine ⟨_, ⟨(mem_nodes_build_iff named).mpr known, ?_⟩, fun other ⟨present, same⟩ => ?_⟩
    · rw [Place.node_id]
    · rw [String.append_left_inj] at same
      exact ((mem_nodes_build_iff named).mp present).eq_of_id_of_texts named known
        (same.trans Place.node_id.symm)
  · intro location content location' content' holds holds' same
    exact holds.eq_of_place named holds' (holds.holds.place_eq plain holds'.holds same)
  · intro name below name' below' stored stored' same
    exact ((named.allowed_of_mem stored).1.shown_inj (named.allowed_of_mem stored').1).mp same
  · intro edge stored
    obtain ⟨_, source, target⟩ := mem_edges_build plain stored
    exact ⟨List.mem_map.mp source, List.mem_map.mp target⟩

/-- Two skills.  The first one is looked at before the document that its index links to. -/
def linkedSkills : List (FileName × FileTree) :=
  [("alpha", .directory [("index.md", .file "See [[beta/SKILL]].".toUTF8)]),
    ("beta", .directory [("SKILL.md", .file "".toUTF8)])]

theorem namedBy_linkedSkills :
    NamedBy (fun name => name.IsText ∧ Plain name) linkedSkills := by
  refine .intro (by decide) (by decide) fun name inner stored => ?_
  simp only [linkedSkills, List.mem_cons, List.not_mem_nil, Prod.mk.injEq,
    FileTree.directory.injEq, or_false] at stored
  rcases stored with ⟨_, rfl⟩ | ⟨_, rfl⟩
  all_goals exact .intro (by decide) (by decide) fun name inner stored => by simp at stored

theorem fromUTF8?_toUTF8 (text : String) : String.fromUTF8? text.toUTF8 = some text :=
  dif_pos text.isValidUTF8

theorem holds_alphaIndex :
    Options.HoldsAt {} linkedSkills ⟨"alpha", [], "index"⟩ "See [[beta/SKILL]]." where
  file := ⟨_, .inside (.head _) (.entry (.head _)), fromUTF8?_toUTF8 _⟩
  followed := List.forall_mem_singleton.mpr (by decide +kernel)
  stem := by decide
  extension := by decide

theorem holds_betaEntry : Options.HoldsAt {} linkedSkills ⟨"beta", [], "SKILL"⟩ "" where
  file := ⟨_, .inside (.tail _ (.head _)) (.entry (.head _)), fromUTF8?_toUTF8 _⟩
  followed := List.forall_mem_singleton.mpr (by decide +kernel)
  stem := by decide
  extension := by decide

theorem asks_linkedSkills : Asks {} linkedSkills "alpha/index" "LINKS_TO" "beta/SKILL" := by
  have found : linkedEdges (Place.node {} ⟨"alpha", [], "index"⟩ "See [[beta/SKILL]].")
      (FrontMatter.split "See [[beta/SKILL]].".toList).body =
      [Edge.between "alpha/index" "LINKS_TO" "beta/SKILL",
        Edge.between "alpha/index" "DEPENDS_ON" "beta/SKILL"] := by
    rw [← linkedEdges_bare, bare_node]
    decide +kernel
  obtain ⟨edge, member, type, target⟩ := (exists_mem_edges_iff (p := (· = "LINKS_TO"))).mpr
    ⟨_, found ▸ List.mem_cons_self, rfl, rfl⟩
  exact .inl ⟨_, _, holds_alphaIndex.holds, edge, member,
    (leaves_of_mem_edges member).source.trans Place.node_id, type, target⟩

theorem buildAt_depicts_linkedSkills :
    NamedBy (fun name => name.IsText ∧ Plain name) linkedSkills ∧
    ∃ graph, buildAt {} "skills" (some (.directory linkedSkills)) = .ok graph ∧
      Depicts {} linkedSkills graph ∧ graph.Joins "alpha/index" "LINKS_TO" "beta/SKILL" := by
  obtain ⟨graph, built, depicts⟩ := buildAt_depicts {} "skills" namedBy_linkedSkills
  refine ⟨namedBy_linkedSkills, graph, built, depicts, ?_⟩
  exact (depicts.edges _ _ _).mpr
    ⟨⟨_, (depicts.nodes _).mpr (.document holds_betaEntry.holds), Place.node_id⟩, asks_linkedSkills⟩

/-- Two documents whose names are no texts and are shown alike, beside a file without a stem. -/
def alikeFiles : List (FileName × FileTree) :=
  [(".md", .file "".toUTF8),
    (FileName.append ⟨[0x61, 0xfe]⟩ ".md", .file "First.".toUTF8),
    (FileName.append ⟨[0x61, 0xff]⟩ ".md", .file "Second.".toUTF8)]

def alikeNames : List (FileName × FileTree) :=
  [("alpha", .directory alikeFiles)]

theorem namedBy_alikeNames : NamedBy Plain alikeNames := by
  refine .intro (by decide) (by decide) fun name inner stored => ?_
  obtain ⟨_, rfl⟩ : name = "alpha" ∧ inner = _ := by simpa [alikeNames] using stored
  exact .intro (by decide) (by decide) fun name inner stored => by
    simp [alikeFiles] at stored

theorem holds_first : Options.HoldsAt {} alikeNames ⟨"alpha", [], ⟨[0x61, 0xfe]⟩⟩ "First." where
  file := ⟨_, .inside (.head _) (.entry (.tail _ (.head _))), fromUTF8?_toUTF8 _⟩
  followed := List.forall_mem_singleton.mpr (by decide +kernel)
  stem := by decide
  extension := by decide

theorem holds_second : Options.HoldsAt {} alikeNames ⟨"alpha", [], ⟨[0x61, 0xff]⟩⟩ "Second." where
  file := ⟨_, .inside (.head _) (.entry (.tail _ (.tail _ (.head _)))), fromUTF8?_toUTF8 _⟩
  followed := List.forall_mem_singleton.mpr (by decide +kernel)
  stem := by decide
  extension := by decide

theorem sources_alikeFiles :
    ((sourcesByName {} ["alpha"] alikeFiles).mergeSort byName).flatMap Prod.snd =
      ["First.", "Second."].map fun content =>
        { path := ["alpha", "a\ufffd.md"], bytes := content.toUTF8 } := by
  have sorted : (sourcesByName {} ["alpha"] alikeFiles).Pairwise
      fun left right => byName left right := by
    decide +kernel
  rw [List.mergeSort_of_pairwise sorted]
  rfl

/-- The two documents have one node. -/
theorem ids_alikeNames :
    (build {} alikeNames).nodes.toList.map Node.id = ["alpha", "alpha/a\ufffd"] := by
  have run : skills {} alikeNames = [(.ofText "alpha", alikeFiles)] := by
    have followed : Options.skips {} (FileName.shown "alpha") = false := by decide +kernel
    simp only [skills, alikeNames, List.filterMap_cons, followed]
    exact List.mergeSort_singleton _
  have found : (skillDocuments {} (FileName.shown "alpha") alikeFiles).map Prod.fst =
      ["First.", "Second."].map (Place.node {} ⟨"alpha", [], "a\ufffd"⟩) := by
    rw [FileName.shown_ofText, skillDocuments, sources_alikeFiles]
    simp only [documents, List.map_cons, List.map_nil, List.filterMap_cons, List.filterMap_nil,
      fromUTF8?_toUTF8]
    rfl
  rw [build_eq namedBy_alikeNames, assemble, Graph.ids_ofChanges, Graph.changeNodes_append, run,
    List.flatMap_singleton, skillNodes, found, FileName.shown_ofText]
  simp only [List.map_cons, List.map_nil, Place.node_id]
  decide

/-- The file without a stem has no node, and the graph shows less than the tree. -/
theorem not_depicts_alikeNames :
    NamedBy Plain alikeNames ∧
    ∃ graph, buildAt {} "skills" (some (.directory alikeNames)) = .ok graph ∧
      Options.HoldsAt {} alikeNames ⟨"alpha", [], ⟨[0x61, 0xfe]⟩⟩ "First." ∧
      Options.HoldsAt {} alikeNames ⟨"alpha", [], ⟨[0x61, 0xff]⟩⟩ "Second." ∧
      FileAt alikeNames ["alpha", ".md"] "".toUTF8 ∧
      graph.nodes.toList.map Node.id = ["alpha", "alpha/a\ufffd"] ∧
      ¬ Depicts {} alikeNames graph := by
  refine ⟨namedBy_alikeNames, _, rfl, holds_first, holds_second, ?_, ids_alikeNames, ?_⟩
  · exact .inside (.head _) (.entry (.head _))
  · intro depicts
    have same := depicts.apart _ _ _ _ holds_first holds_second (by decide)
    exact absurd same (by decide)

end DocumentGraph.Document
