import DocumentGraph.Proofs.Document.Link
import DocumentGraph.Proofs.Document.Place
import DocumentGraph.Proofs.Graph.Assembled

namespace DocumentGraph.Document

open FileTree (NamedBy)
open DocumentGraph.Graph (assemble)

/-! The nodes of a tree, and the run of a build over its skills.

Every skill brings its nodes at once and its edges for later.  A node that takes the place of
another one with its id differs from it in the properties only, and no edge depends on those.  So a
build ends with the graph of all nodes and of the edges between them.
-/

variable {options : Options} {entries below : List (FileName × FileTree)} {skill : String}
  {node : Node} {nodes : List Node} {edge : Edge}
  {directory : FileName × List (FileName × FileTree)}
  {directories : List (FileName × List (FileName × FileTree))}

def skillNodes (options : Options) (directory : FileName × List (FileName × FileTree)) :
    List Node :=
  skillNode directory.1.shown ::
    (skillDocuments options directory.1.shown directory.2).map Prod.fst

/-- The types of the edges from a skill to its entry document and to its index, with their
targets. -/
def placements (skill : String) : List (String × String) :=
  [("HAS_ENTRYPOINT", skill ++ "/SKILL"), ("HAS_INDEX", skill ++ "/index")]

/-- The edges from a skill to those of its two documents that are among the nodes. -/
def placeEdges (nodes : List Node) (skill : String) : List Edge :=
  (placements skill).filterMap fun (type, target) =>
    if target ∈ nodes.map Node.id then some (Edge.between skill type target) else none

/-- The edges that a skill brings when the given nodes are there. -/
def skillLinks (options : Options) (nodes : List Node)
    (directory : FileName × List (FileName × FileTree)) : List Edge :=
  (skillDocuments options directory.1.shown directory.2).flatMap
    (fun (node, body) => edges node body) ++ placeEdges nodes directory.1.shown

/-- The edges of skills that are looked at one after the other, behind the given nodes. -/
def offered (options : Options) (nodes : List Node) :
    List (FileName × List (FileName × FileTree)) → List Edge
  | [] => []
  | directory :: rest =>
      skillLinks options (nodes ++ skillNodes options directory) directory ++
        offered options (nodes ++ skillNodes options directory) rest

/-- Nodes with the same id differ in their properties only. -/
def Alike (nodes : List Node) : Prop :=
  ∀ node ∈ nodes, ∀ other ∈ nodes, node.id = other.id → bare node = bare other

theorem skillOf_of_mem_placements {type target : String} (plain : '/' ∉ skill.toList)
    (member : (type, target) ∈ placements skill) : skillOf target = skill := by
  have top : ∃ stem, target = skill ++ ("/" ++ stem) := by
    rcases List.mem_pair.mp member with same | same
    · exact ⟨"SKILL", (Prod.mk.inj same).2⟩
    · exact ⟨"index", (Prod.mk.inj same).2⟩
  obtain ⟨stem, rfl⟩ := top
  rw [← Place.id_top]
  exact skillOf_joined plain _

theorem foldl_addNode_assemble (nodes others : List Node) :
    others.foldl Graph.addNode (assemble nodes []) = assemble (nodes ++ others) [] := by
  simp [assemble, Graph.ofChanges, List.foldl_map, Graph.change]

theorem addEdges_assemble (nodes : List Node) (links : List Edge) :
    addEdges (assemble nodes []) links = assemble nodes links := by
  simp only [assemble, Graph.ofChanges, List.map_nil, List.append_nil, List.foldl_append,
    List.foldl_map]
  rfl

theorem skillEdges_assemble (nodes : List Node) (skill : String) :
    skillEdges (assemble nodes []) skill = placeEdges nodes skill := by
  refine List.filterMap_congr fun (type, target) _ => ?_
  dsimp only
  split
  · rename_i present
    obtain ⟨node, found⟩ := Graph.exists_node?_assemble present
    rw [found, Option.map_some]
  · rename_i absent
    cases found : (assemble nodes []).node? target with
    | none => rfl
    | some node =>
        obtain ⟨stored, rfl⟩ := Graph.mem_of_node?_assemble found
        exact absurd (List.mem_map_of_mem stored) absent

/-- The edges of a document are those that its own node would bring. -/
theorem edges_of_alike (alike : Alike nodes) (member : node ∈ nodes) (body : List Char) :
    (match (assemble nodes []).node? node.id with
      | some present => edges present body
      | none => []) = edges node body := by
  obtain ⟨present, found⟩ : ∃ present, (assemble nodes []).node? node.id = some present :=
    Graph.exists_node?_assemble (List.mem_map_of_mem member)
  obtain ⟨stored, same⟩ := Graph.mem_of_node?_assemble found
  rw [found]
  calc edges present body
      = edges (bare present) body := rfl
    _ = edges (bare node) body := by rw [alike present stored node member same]
    _ = edges node body := rfl

theorem addSkill_eq (alike : Alike (nodes ++ skillNodes options directory)) :
    addSkill options (assemble nodes []) directory.1.shown directory.2 =
      (assemble (nodes ++ skillNodes options directory) [],
        skillLinks options (nodes ++ skillNodes options directory) directory) := by
  have added : ((skillDocuments options directory.1.shown directory.2).map Prod.fst).foldl
      Graph.addNode ((assemble nodes []).addNode (skillNode directory.1.shown)) =
        assemble (nodes ++ skillNodes options directory) [] :=
    foldl_addNode_assemble nodes (skillNodes options directory)
  unfold addSkill
  dsimp only
  rw [← skillDocuments, added, skillLinks, skillEdges_assemble]
  congr 2
  refine List.flatMap_congr fun document member => edges_of_alike alike ?_ document.2
  exact List.mem_append_right _ (List.mem_cons_of_mem _ (List.mem_map_of_mem member))

/-- Skills are looked at one after the other. -/
theorem foldl_addSkill (links : List Edge)
    (alike : Alike (nodes ++ directories.flatMap (skillNodes options))) :
    directories.foldl (fun (graph, pending) (name, below) =>
      let (graph, links) := addSkill options graph name.shown below
      (graph, pending ++ links)) (assemble nodes [], links) =
      (assemble (nodes ++ directories.flatMap (skillNodes options)) [],
        links ++ offered options nodes directories) := by
  induction directories generalizing nodes links with
  | nil => simp [offered]
  | cons directory directories ih =>
      rw [List.flatMap_cons, ← List.append_assoc] at alike ⊢
      have here : Alike (nodes ++ skillNodes options directory) := fun node first other second =>
        alike node (List.mem_append_left _ first) other (List.mem_append_left _ second)
      rw [List.foldl_cons]
      dsimp only
      rw [addSkill_eq here, ih _ alike, offered]
      exact congrArg (Prod.mk _) (List.append_assoc _ _ _)

theorem mem_placeEdges : edge ∈ placeEdges nodes skill ↔
    ∃ type target, (type, target) ∈ placements skill ∧ target ∈ nodes.map Node.id ∧
      edge = Edge.between skill type target := by
  rw [placeEdges, List.mem_filterMap]
  constructor
  · rintro ⟨⟨type, target⟩, listed, found⟩
    dsimp only at found
    split at found
    · rename_i present
      exact ⟨type, target, listed, present, (Option.some.inj found).symm⟩
    · contradiction
  · rintro ⟨type, target, listed, present, rfl⟩
    exact ⟨(type, target), listed, if_pos present⟩

/-- An edge is offered by some skill, in front of which nodes of other skills may be there. -/
theorem mem_offered : edge ∈ offered options nodes directories ↔
    ∃ before directory after, directories = before ++ directory :: after ∧
      edge ∈ skillLinks options
        (nodes ++ before.flatMap (skillNodes options) ++ skillNodes options directory) directory := by
  induction directories generalizing nodes with
  | nil => simp [offered]
  | cons first directories ih =>
      rw [offered, List.mem_append, ih]
      constructor
      · rintro (here | ⟨before, directory, after, rfl, later⟩)
        · exact ⟨[], first, directories, rfl, by simpa using here⟩
        · refine ⟨first :: before, directory, after, rfl, ?_⟩
          simpa only [List.flatMap_cons, List.append_assoc] using later
      · rintro ⟨before, directory, after, same, member⟩
        cases before with
        | nil =>
            obtain ⟨rfl, rfl⟩ := List.cons.inj same
            exact .inl (by simpa using member)
        | cons head before =>
            obtain ⟨rfl, rfl⟩ := List.cons.inj same
            refine .inr ⟨before, directory, after, rfl, ?_⟩
            simpa only [List.flatMap_cons, List.append_assoc] using member

theorem mem_skills : directory ∈ skills options entries ↔
    (directory.1, FileTree.directory directory.2) ∈ entries ∧
      options.skips directory.1.shown = false := by
  rw [skills, List.mem_mergeSort, List.mem_filterMap]
  constructor
  · rintro ⟨⟨name, tree⟩, stored, found⟩
    cases tree with
    | file bytes => contradiction
    | directory below =>
        dsimp only at found
        split at found
        · contradiction
        · rename_i followed
          obtain rfl := Option.some.inj found
          exact ⟨stored, by simpa using followed⟩
  · rintro ⟨stored, followed⟩
    exact ⟨_, stored, by simp [followed]⟩

/-- The nodes that a tree has: one for every skill and one for every document. -/
inductive NodeOf (options : Options) (entries : List (FileName × FileTree)) : Node → Prop
  | skill {name : FileName} {below : List (FileName × FileTree)}
      (stored : (name, .directory below) ∈ entries) (followed : options.skips name.shown = false) :
      NodeOf options entries (skillNode name.shown)
  | document {place : Place} {content : String} (holds : options.Holds entries place content) :
      NodeOf options entries (place.node options content)

theorem Options.HoldsAt.exists_directory {location : Location} {content : String}
    (holds : options.HoldsAt entries location content) :
    ∃ directory ∈ skills options entries, directory.1 = location.skill := by
  obtain ⟨_, file, _⟩ := holds.file
  obtain ⟨below, stored, _⟩ := file.exists_directory (location.path_tail_ne_nil options)
  exact ⟨(location.skill, below), mem_skills.mpr ⟨stored, holds.followed _ List.mem_cons_self⟩, rfl⟩

section Named

variable (named : NamedBy Plain entries)

include named

theorem nodeOf_of_mem_skillNodes (known : directory ∈ skills options entries)
    (member : node ∈ skillNodes options directory) :
    NodeOf options entries node ∧ node.skill = directory.1.shown := by
  obtain ⟨stored, followed⟩ := mem_skills.mp known
  rcases List.mem_cons.mp member with rfl | document
  · exact ⟨.skill stored followed, rfl⟩
  · obtain ⟨⟨node, body⟩, found, rfl⟩ := List.mem_map.mp document
    obtain ⟨location, content, same, holds, rfl, _⟩ :=
      (mem_skillDocuments named stored followed).mp found
    exact ⟨.document holds.holds, Place.node_skill.trans (congrArg FileName.shown same)⟩

theorem NodeOf.exists_directory (known : NodeOf options entries node) :
    ∃ directory ∈ skills options entries, node ∈ skillNodes options directory := by
  cases known with
  | @skill name below stored followed =>
      have known : (name, below) ∈ skills options entries := mem_skills.mpr ⟨stored, followed⟩
      exact ⟨(name, below), known, List.mem_cons_self⟩
  | document holds =>
      obtain ⟨location, rfl, holds⟩ := holds
      obtain ⟨directory, known, same⟩ := holds.exists_directory
      obtain ⟨stored, followed⟩ := mem_skills.mp known
      have found := (mem_skillDocuments named stored followed).mpr
        ⟨location, _, same.symm, holds, rfl, rfl⟩
      exact ⟨directory, known, List.mem_cons_of_mem _ (List.mem_map_of_mem (f := Prod.fst) found)⟩

theorem mem_nodes :
    node ∈ (skills options entries).flatMap (skillNodes options) ↔ NodeOf options entries node := by
  rw [List.mem_flatMap]
  constructor
  · rintro ⟨directory, known, member⟩
    exact (nodeOf_of_mem_skillNodes named known member).1
  · exact fun present => present.exists_directory named

namespace NodeOf

theorem skillOf_id (known : NodeOf options entries node) : skillOf node.id = node.skill := by
  cases known with
  | skill stored followed => exact skillOf_name (named.allowed_of_mem stored).1
  | document holds =>
      rw [Place.node_id, Place.node_skill]
      exact holds.skillOf_id named

theorem undoubled_id (known : NodeOf options entries node) : Undoubled node.id.toList := by
  cases known with
  | skill stored followed => exact (named.allowed_of_mem stored).2
  | document holds =>
      rw [Place.node_id]
      exact holds.undoubled_id named

/-- A document lies deeper than any skill. -/
theorem skill_ne_document {name : FileName} {place : Place} {content : String}
    (stored : (name, .directory below) ∈ entries) (holds : options.Holds entries place content) :
    name.shown ≠ place.id := by
  intro same
  rw [← String.intercalate_singleton (s := "/") (t := name.shown)] at same
  have parts := joined_inj (List.forall_mem_singleton.mpr (named.allowed_of_mem stored).1)
    (fun name member => (holds.plain named name member).1) (List.cons_ne_nil _ _)
    (List.cons_ne_nil _ _) same
  have shorter := congrArg List.length parts
  simp at shorter

/-- Nodes with one id are the same skill, or documents at the same place. -/
theorem eq_of_id {other : Node} (known : NodeOf options entries node)
    (known' : NodeOf options entries other) (same : node.id = other.id) :
    node = other ∨ ∃ place content content', options.Holds entries place content ∧
      options.Holds entries place content' ∧ node = place.node options content ∧
      other = place.node options content' := by
  cases known with
  | skill stored followed =>
      cases known' with
      | skill stored' followed' => exact .inl (congrArg skillNode same)
      | document holds' =>
          exact absurd (same.trans Place.node_id) (skill_ne_document named stored holds')
  | document holds =>
      cases known' with
      | skill stored' followed' =>
          exact absurd (same.symm.trans Place.node_id) (skill_ne_document named stored' holds)
      | document holds' =>
          rw [Place.node_id, Place.node_id] at same
          obtain rfl := holds.place_eq named holds' same
          exact .inr ⟨_, _, _, holds, holds', rfl, rfl⟩

theorem bare_eq {other : Node} (known : NodeOf options entries node)
    (known' : NodeOf options entries other) (same : node.id = other.id) :
    bare node = bare other := by
  rcases known.eq_of_id named known' same with rfl | ⟨place, _, _, _, _, rfl, rfl⟩
  · rfl
  · rw [bare_node, bare_node]

end NodeOf

theorem alike_nodes : Alike ((skills options entries).flatMap (skillNodes options)) :=
  fun _ first _ second same =>
    ((mem_nodes named).mp first).bare_eq named ((mem_nodes named).mp second) same

theorem build_eq : build options entries =
    assemble ((skills options entries).flatMap (skillNodes options))
      (offered options [] (skills options entries)) := by
  have alike : Alike ([] ++ (skills options entries).flatMap (skillNodes options)) :=
    alike_nodes named
  have run := foldl_addSkill [] alike
  rw [List.nil_append, List.nil_append] at run
  exact (congrArg (fun (graph, pending) => addEdges graph pending) run).trans
    (addEdges_assemble _ _)

theorem indexed_build : (build options entries).Indexed := by
  rw [build_eq named]
  exact Graph.indexed_assemble _ _

theorem nodeOf_of_mem_build (stored : node ∈ (build options entries).nodes.toList) :
    NodeOf options entries node := by
  rw [build_eq named] at stored
  exact (mem_nodes named).mp (Graph.mem_of_mem_assemble stored)

/-- A node of the tree is in the graph, or one that has its place. -/
theorem NodeOf.exists_mem_build (known : NodeOf options entries node) :
    ∃ stored ∈ (build options entries).nodes.toList, bare stored = bare node := by
  have present := List.mem_map_of_mem (f := Node.id) ((mem_nodes named).mpr known)
  rw [← Graph.mem_ids_assemble, ← build_eq named] at present
  obtain ⟨stored, member, same⟩ := List.mem_map.mp present
  exact ⟨stored, member, (nodeOf_of_mem_build named member).bare_eq named known same⟩

theorem NodeOf.exists_id_eq (known : NodeOf options entries node) :
    ∃ stored ∈ (build options entries).nodes.toList, stored.id = node.id := by
  obtain ⟨stored, member, same⟩ := known.exists_mem_build named
  exact ⟨stored, member, (eq_of_bare same).1⟩

end Named

end DocumentGraph.Document
