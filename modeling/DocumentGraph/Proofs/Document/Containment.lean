import DocumentGraph.Proofs.Document.Dependency

namespace DocumentGraph.Document

open FileTree (NamedBy)

/-! What an index contains.

A link in an index reaches a document below `nodes/` by the path inside their skill or by the whole
id of the document.  Both spellings make a link, but only the first one makes the index contain the
document.
-/

variable {options : Options} {entries : List (FileName × FileTree)} {node : Node} {link : WikiLink}
  {place : Place} {body target : List Char} {content skill type inside : String}

/-- The path that a link gives, without the blanks around it and without an extension. -/
def WikiLink.path (link : WikiLink) : List Char :=
  dropExtension (Text.trim link.target)

/-- A text has the same dotless beginnings with and without its extension. -/
theorem isPrefix_dropExtension_iff {mark : List Char} (dotless : '.' ∉ mark) :
    mark <+: dropExtension target ↔ mark <+: target := by
  unfold dropExtension Text.dropEnd
  cases found : ['.', 'm', 'd'].isSuffixOf? target with
  | none => rfl
  | some front =>
      obtain rfl := List.isSuffixOf?_eq_some_iff_append_eq.mp found
      refine ⟨fun begins => begins.trans (List.prefix_append _ _), fun begins => ?_⟩
      rcases List.prefix_or_prefix_of_prefix begins (List.prefix_append _ _) with
        short | ⟨rest, rfl⟩
      · exact short
      · cases rest with
        | nil => simp
        | cons c rest =>
            -- The text would begin with the dot of its extension.
            have dot : c = '.' :=
              (List.cons_prefix_cons.mp ((List.prefix_append_right_inj _).mp begins)).1
            exact absurd (dot ▸ by simp) dotless

/-- A link into `nodes/` is one by the path inside its skill. -/
theorem isPrefixOf_nodes_iff :
    "nodes/".toList.isPrefixOf (Text.trim link.target) = true ↔ "nodes/".toList <+: link.path := by
  rw [List.isPrefixOf_iff_prefix, WikiLink.path, isPrefix_dropExtension_iff (by decide)]

theorem isLocal_of_nodes (below : "nodes/".toList <+: target) : isLocal target = true :=
  List.any_eq_true.mpr ⟨"nodes/", .head _, List.isPrefixOf_iff_prefix.mpr below⟩

theorem begins_nodes (below : String) : "nodes/".toList <+: ("nodes/" ++ below).toList := by
  rw [String.toList_append]
  exact List.prefix_append _ _

/-- A link reaches a document below `nodes/` by the path inside the skill, or by the id where that
does not begin like such a path. -/
theorem resolveWikiLink_eq_iff (below : "nodes/".toList <+: inside.toList) :
    resolveWikiLink (Text.trim link.target) skill = skill ++ "/" ++ inside ↔
      link.path = inside.toList ∨
        link.path = (skill ++ "/" ++ inside).toList ∧
          isLocal (skill ++ "/" ++ inside).toList = false := by
  have resolved : resolveWikiLink (Text.trim link.target) skill =
      if '/' ∈ link.path && !isLocal link.path then String.ofList link.path
      else skill ++ "/" ++ String.ofList link.path := rfl
  rw [resolved]
  constructor
  · intro reached
    split at reached
    · rename_i whole
      have spelled : link.path = (skill ++ "/" ++ inside).toList := by
        rw [← reached, String.toList_ofList]
      rw [spelled, Bool.and_eq_true, Bool.not_eq_true'] at whole
      exact .inr ⟨spelled, whole.2⟩
    · rw [String.append_right_inj] at reached
      exact .inl (by rw [← reached, String.toList_ofList])
  · rintro (spelled | ⟨spelled, foreign⟩)
    · rw [spelled, isLocal_of_nodes below, Bool.not_true, Bool.and_false, if_neg (by decide),
        String.ofList_toList]
    · rw [spelled, foreign, if_pos (by simp), String.ofList_toList]

/-- The types of the edges that a link between doubled brackets asks for. -/
def linkedTypes (node : Node) (link : WikiLink) : List String :=
  if node.hasLabel "Index" && "nodes/".toList.isPrefixOf (Text.trim link.target) then
    ["LINKS_TO", "CONTAINS"]
  else ["LINKS_TO"]

theorem linksTo_mem_linkedTypes : "LINKS_TO" ∈ linkedTypes node link := by
  unfold linkedTypes
  split <;> decide

theorem contains_mem_linkedTypes_iff : "CONTAINS" ∈ linkedTypes node link ↔
    node.hasLabel "Index" = true ∧ "nodes/".toList <+: link.path := by
  rw [← isPrefixOf_nodes_iff, ← Bool.and_eq_true]
  unfold linkedTypes
  split
  · rename_i both
    exact iff_of_true (by decide) both
  · rename_i other
    exact iff_of_false (by decide) other

theorem exists_mem_linkEdges_iff {types : List String} {label : Option String}
    {reached target : String} (known : type ≠ "DEPENDS_ON") :
    (∃ edge ∈ linkEdges node types reached label, edge.type = type ∧ edge.target = target) ↔
      type ∈ types ∧ reached = target := by
  rw [exists_mem_linkEdges (p := (· = type)), and_comm]
  refine and_congr_left fun _ => ⟨?_, fun listed => ⟨type, .inl listed, rfl⟩⟩
  rintro ⟨_, listed | ⟨rfl, _⟩, rfl⟩
  · exact listed
  · exact absurd rfl known

theorem exists_mem_wikiLinkEdges_iff {target : String} (known : type ≠ "DEPENDS_ON") :
    (∃ edge ∈ wikiLinkEdges node link, edge.type = type ∧ edge.target = target) ↔
      type ∈ linkedTypes node link ∧
        resolveWikiLink (Text.trim link.target) node.skill = target := by
  unfold wikiLinkEdges
  exact exists_mem_linkEdges_iff known

/-- Only links between doubled brackets ask for edges of the two types. -/
theorem exists_mem_linkedEdges_iff {target : String} (known : type ∈ ["LINKS_TO", "CONTAINS"]) :
    (∃ edge ∈ linkedEdges node body, edge.type = type ∧ edge.target = target) ↔
      ∃ link ∈ wikiLinks body, type ∈ linkedTypes node link ∧
        resolveWikiLink (Text.trim link.target) node.skill = target := by
  have foreign : type ∉ ["REFERENCES", "DEPENDS_ON"] := by
    rcases List.mem_pair.mp known with rfl | rfl <;> decide
  obtain ⟨byPath, apart⟩ := List.ne_and_not_mem_of_not_mem_cons foreign
  have plain : type ≠ "DEPENDS_ON" := List.ne_of_not_mem_cons apart
  constructor
  · rintro ⟨edge, offered, typed, reached⟩
    rcases List.mem_append.mp offered with wiki | path
    · obtain ⟨link, member, offered⟩ := List.mem_flatMap.mp wiki
      exact ⟨link, member, (exists_mem_wikiLinkEdges_iff plain).mp
        ⟨edge, offered, typed, reached⟩⟩
    · obtain ⟨link, _, offered⟩ := List.mem_flatMap.mp path
      unfold pathLinkEdges at offered
      split at offered
      · contradiction
      · obtain ⟨listed, _⟩ := (exists_mem_linkEdges_iff plain).mp ⟨edge, offered, typed, reached⟩
        exact absurd (List.mem_singleton.mp listed) byPath
  · rintro ⟨link, member, listed, reached⟩
    obtain ⟨edge, offered, found⟩ :=
      (exists_mem_wikiLinkEdges_iff plain).mpr ⟨listed, reached⟩
    exact ⟨edge, List.mem_append_left _ (List.mem_flatMap.mpr ⟨link, member, offered⟩), found⟩

/-- The place of a skill's index. -/
def indexPlace (skill : String) : Place where
  skill := skill
  directories := []
  stem := "index"

theorem hasLabel_indexPlace :
    ((indexPlace skill).node options content).hasLabel "Index" = true := by
  have top : labelOf options ((indexPlace skill).path options) = "Index" :=
    (labelOf_top options skill "index").trans (if_pos rfl)
  rw [Node.hasLabel, Place.node_labels, top]
  decide

theorem exists_indexPlace (present : NodeOf options entries node)
    (labelled : node.hasLabel "Index" = true) :
    ∃ content, options.Holds entries (indexPlace node.skill) content ∧
      node.id = (indexPlace node.skill).id := by
  cases present with
  | skill stored followed => exact absurd labelled (by simp [Node.hasLabel, skillNode])
  | @document place content holds =>
      rw [Node.hasLabel, Place.node_labels, List.contains_iff_mem, List.mem_singleton] at labelled
      have known : (⟨"HAS_INDEX", "Index", "index"⟩ : Placement) ∈ Placement.all := .head _
      obtain ⟨top, named⟩ := (labelOf_eq_iff known).mp labelled.symm
      obtain ⟨skill, directories, stem⟩ := place
      obtain rfl : directories = [] := top
      obtain rfl : stem = "index" := named
      rw [Place.node_skill, Place.node_id]
      exact ⟨content, holds, rfl⟩

/-- The links in the text of a skill's index. -/
def IndexLink (options : Options) (entries : List (FileName × FileTree)) (skill : String)
    (link : WikiLink) : Prop :=
  ∃ content, options.Holds entries (indexPlace skill) content ∧
    link ∈ wikiLinks (FrontMatter.split content.toList).body

/-- Some link gives the path inside the skill. -/
def SpelledInside (links : WikiLink → Prop) (inside : String) : Prop :=
  ∃ link, links link ∧ link.path = inside.toList

/-- Some link gives the id, which does not begin like a path inside the skill. -/
def SpelledWhole (links : WikiLink → Prop) (id : String) : Prop :=
  ∃ link, links link ∧ link.path = id.toList ∧ isLocal id.toList = false

section Named

variable (named : NamedBy Plain entries) {below : String}
  (holds : options.Holds entries (indexPlace skill) content)
  (present : NodeOf options entries node)

include named holds present

/-- An index and another node are joined by the links in the index's text. -/
theorem joins_iff_exists_link (known : type ∈ ["LINKS_TO", "CONTAINS"]) :
    (build options entries).Joins (indexPlace skill).id type node.id ↔
      ∃ content, options.Holds entries (indexPlace skill) content ∧
        ∃ link ∈ wikiLinks (FrontMatter.split content.toList).body,
          type ∈ linkedTypes ((indexPlace skill).node options content) link ∧
          resolveWikiLink (Text.trim link.target) skill = node.id := by
  have single : Asks options entries (indexPlace skill).id type node.id ↔
      ∃ asked, asked = type ∧ Asks options entries (indexPlace skill).id asked node.id := by simp
  have linkType : ∀ asked, asked = type → asked ∈ linkTypes := by
    rintro _ rfl
    rcases List.mem_pair.mp known with rfl | rfl <;> decide
  have own (content : String) : ((indexPlace skill).node options content).skill = skill :=
    Place.node_skill
  rw [joins_build named, and_iff_right (present.exists_id_eq named), single,
    exists_asks_iff linkType]
  constructor
  · rintro ⟨place, content, holds', same, asking⟩
    obtain rfl := holds'.place_eq named holds same
    rw [exists_mem_edges_iff (p := (· = type)), exists_mem_linkedEdges_iff known, own] at asking
    exact ⟨content, holds', asking⟩
  · rintro ⟨content, holds', linked⟩
    refine ⟨indexPlace skill, content, holds', rfl, ?_⟩
    rw [exists_mem_edges_iff (p := (· = type)), exists_mem_linkedEdges_iff known, own]
    exact linked

variable (spelled : node.id = skill ++ "/" ++ ("nodes/" ++ below))

include spelled

theorem joins_linksTo_iff :
    (build options entries).Joins (indexPlace skill).id "LINKS_TO" node.id ↔
      SpelledInside (IndexLink options entries skill) ("nodes/" ++ below) ∨
        SpelledWhole (IndexLink options entries skill) node.id := by
  rw [joins_iff_exists_link named holds present (by decide), spelled]
  simp only [linksTo_mem_linkedTypes, true_and, resolveWikiLink_eq_iff (begins_nodes below)]
  constructor
  · rintro ⟨content, holds, link, member, own | whole⟩
    · exact .inl ⟨link, ⟨content, holds, member⟩, own⟩
    · exact .inr ⟨link, ⟨content, holds, member⟩, whole⟩
  · rintro (⟨link, ⟨content, holds, member⟩, own⟩ | ⟨link, ⟨content, holds, member⟩, whole⟩)
    · exact ⟨content, holds, link, member, .inl own⟩
    · exact ⟨content, holds, link, member, .inr whole⟩

theorem joins_contains_iff :
    (build options entries).Joins (indexPlace skill).id "CONTAINS" node.id ↔
      SpelledInside (IndexLink options entries skill) ("nodes/" ++ below) := by
  rw [joins_iff_exists_link named holds present (by decide), spelled]
  constructor
  · rintro ⟨content, holds, link, member, listed, reached⟩
    obtain ⟨_, begun⟩ := contains_mem_linkedTypes_iff.mp listed
    rcases (resolveWikiLink_eq_iff (begins_nodes below)).mp reached with own | ⟨whole, foreign⟩
    · exact ⟨link, ⟨content, holds, member⟩, own⟩
    · rw [whole] at begun
      exact absurd (foreign.symm.trans (isLocal_of_nodes begun)) (by decide)
  · rintro ⟨link, ⟨content, holds, member⟩, own⟩
    have begun : "nodes/".toList <+: link.path := own ▸ begins_nodes below
    exact ⟨content, holds, link, member,
      contains_mem_linkedTypes_iff.mpr ⟨hasLabel_indexPlace, begun⟩,
      (resolveWikiLink_eq_iff (begins_nodes below)).mpr (.inl own)⟩

end Named

/-- In the graph of a tree, an index links to a document below `nodes/` in its skill if a link in
its text gives the path inside the skill or the id of the document, and contains it only for the
first spelling.  So the two agree just where no document is given by its id alone. -/
theorem buildAt_contains_iff {path : String} {tree : FileTree} {graph : Graph}
    (named : NamedBy Plain tree.entries)
    (built : buildAt options path (some tree) = .ok graph) :
    ∀ index ∈ graph.nodes.toList, index.hasLabel "Index" = true →
      (∃ content, options.Holds tree.entries (indexPlace index.skill) content) ∧
        ∀ node ∈ graph.nodes.toList, ∀ below,
          node.id = index.skill ++ "/" ++ ("nodes/" ++ below) →
          let links := IndexLink options tree.entries index.skill
          (graph.Joins index.id "CONTAINS" node.id ↔ SpelledInside links ("nodes/" ++ below)) ∧
          (graph.Joins index.id "LINKS_TO" node.id ↔
            SpelledInside links ("nodes/" ++ below) ∨ SpelledWhole links node.id) ∧
          ((graph.Joins index.id "CONTAINS" node.id ↔ graph.Joins index.id "LINKS_TO" node.id) ↔
            (SpelledWhole links node.id → SpelledInside links ("nodes/" ++ below))) := by
  cases tree with
  | file bytes => contradiction
  | directory entries =>
      obtain rfl := Except.ok.inj built
      have named : NamedBy Plain entries := named
      intro index present labelled
      obtain ⟨content, holds, id⟩ :=
        exists_indexPlace (nodeOf_of_mem_build named present) labelled
      refine ⟨⟨content, holds⟩, fun node present' below spelled => ?_⟩
      have known := nodeOf_of_mem_build named present'
      have contains := joins_contains_iff named holds known spelled
      have linksTo := joins_linksTo_iff named holds known spelled
      rw [id]
      refine ⟨contains, linksTo, ?_⟩
      rw [contains, linksTo]
      constructor
      · exact fun agree whole => agree.mpr (.inr whole)
      · exact fun enough => ⟨.inl, fun either => either.elim (fun inside => inside) enough⟩

/-- Where all names are texts, an index has one text. -/
theorem indexLink_iff (named : NamedBy (fun name => name.IsText ∧ Plain name) entries)
    (holds : options.Holds entries (indexPlace skill) content) :
    IndexLink options entries skill link ↔
      link ∈ wikiLinks (FrontMatter.split content.toList).body := by
  constructor
  · rintro ⟨content', holds', member⟩
    rwa [holds'.content_eq named holds] at member
  · exact fun member => ⟨content, holds, member⟩

/-- A skill whose index gives one document by its path and another one by its id. -/
def twoSpellings : List (FileName × FileTree) :=
  [("alpha", .directory [
    ("index.md", .file "See [[nodes/intro]] and [[alpha/nodes/usage]].".toUTF8),
    ("nodes", .directory [("intro.md", .file "".toUTF8), ("usage.md", .file "".toUTF8)])])]

theorem namedBy_twoSpellings :
    NamedBy (fun name => name.IsText ∧ Plain name) twoSpellings := by
  refine .intro (by decide) (by decide) fun name inner stored => ?_
  obtain ⟨_, rfl⟩ : name = "alpha" ∧ inner = _ := by simpa [twoSpellings] using stored
  refine .intro (by decide) (by decide) fun name inner stored => ?_
  obtain ⟨_, rfl⟩ : name = "nodes" ∧ inner = _ := by simpa using stored
  exact .intro (by decide) (by decide) fun name inner stored => by simp at stored

theorem holds_index : Options.Holds {} twoSpellings (indexPlace "alpha")
    "See [[nodes/intro]] and [[alpha/nodes/usage]]." :=
  ⟨⟨"alpha", [], "index"⟩, rfl, {
    file := ⟨_, .inside (.head _) (.entry (.head _)), fromUTF8?_toUTF8 _⟩
    followed := List.forall_mem_singleton.mpr (by decide +kernel)
    stem := by decide
    extension := by decide }⟩

theorem holds_nodes {stem : String} (listed : stem ∈ ["intro", "usage"]) :
    Options.Holds {} twoSpellings ⟨"alpha", ["nodes"], stem⟩ "" := by
  have followed : ∀ directory ∈ ["alpha", "nodes"], Options.skips {} directory = false := by
    decide +kernel
  have texts : [FileName.ofText "alpha", FileName.ofText "nodes"].map FileName.shown =
      ["alpha", "nodes"] := by decide
  have file : FileTree.FileAt twoSpellings
      (Location.path {} ⟨"alpha", ["nodes"], .ofText stem⟩) "".toUTF8 := by
    rcases List.mem_pair.mp listed with rfl | rfl
    · exact .inside (.head _) (.inside (.tail _ (.head _)) (.entry (.head _)))
    · exact .inside (.head _) (.inside (.tail _ (.head _)) (.entry (.tail _ (.head _))))
  refine ⟨⟨"alpha", ["nodes"], .ofText stem⟩, ?_, {
    file := ⟨_, file, fromUTF8?_toUTF8 _⟩
    followed := ?_
    stem := ?_
    extension := by decide }⟩
  · simp [Location.place]
  · rw [← texts, List.forall_mem_map] at followed
    exact followed
  · rcases List.mem_pair.mp listed with rfl | rfl <;> decide

theorem indexLink_twoSpellings : IndexLink {} twoSpellings "alpha" link ↔
    link ∈ [{ target := "nodes/intro".toList, label := none },
      { target := "alpha/nodes/usage".toList, label := none }] := by
  have links : wikiLinks
      (FrontMatter.split "See [[nodes/intro]] and [[alpha/nodes/usage]].".toList).body =
        [{ target := "nodes/intro".toList, label := none },
          { target := "alpha/nodes/usage".toList, label := none }] := by
    decide +kernel
  rw [indexLink_iff namedBy_twoSpellings holds_index, links]

theorem buildAt_contains_iff_intro :
    NamedBy Plain (FileTree.directory twoSpellings).entries ∧
    ∃ graph, buildAt {} "skills" (some (.directory twoSpellings)) = .ok graph ∧
      graph.Joins "alpha/index" "CONTAINS" "alpha/nodes/intro" := by
  have named : NamedBy Plain (FileTree.directory twoSpellings).entries :=
    namedBy_twoSpellings.mono fun _ both => both.2
  have built : buildAt {} "skills" (some (.directory twoSpellings)) =
    .ok (build {} twoSpellings) := rfl
  have index := (mem_nodes_build_iff namedBy_twoSpellings).mpr (.document holds_index)
  have intro := (mem_nodes_build_iff namedBy_twoSpellings).mpr
    (.document (holds_nodes (.head _)))
  obtain ⟨_, exactly⟩ := buildAt_contains_iff named built _ index hasLabel_indexPlace
  obtain ⟨contains, _, _⟩ := exactly _ intro "intro" (by
    rw [Place.node_id, Place.node_skill]
    decide)
  rw [Place.node_id, Place.node_id, Place.node_skill] at contains
  exact ⟨named, _, built, contains.mpr ⟨_, indexLink_twoSpellings.mpr (.head _), by decide⟩⟩

/-- The index links to the document that it gives by its id, and does not contain it. -/
theorem not_contains_usage :
    NamedBy Plain (FileTree.directory twoSpellings).entries ∧
    ∃ graph, buildAt {} "skills" (some (.directory twoSpellings)) = .ok graph ∧
      ∃ index ∈ graph.nodes.toList, ∃ node ∈ graph.nodes.toList,
        index.hasLabel "Index" = true ∧ node.skill = index.skill ∧
        node.id = index.skill ++ "/nodes/usage" ∧
        graph.Joins index.id "LINKS_TO" node.id ∧ ¬ graph.Joins index.id "CONTAINS" node.id := by
  have named : NamedBy Plain twoSpellings := namedBy_twoSpellings.mono fun _ both => both.2
  have usage : NodeOf {} twoSpellings _ := .document (holds_nodes (.tail _ (.head _)))
  have spelled : (Place.node {} ⟨"alpha", ["nodes"], "usage"⟩ "").id =
      "alpha" ++ "/" ++ ("nodes/" ++ "usage") := Place.node_id.trans (by decide)
  have linksTo := joins_linksTo_iff named holds_index usage spelled
  have contains := joins_contains_iff named holds_index usage spelled
  have indexId (content : String) :
      ((indexPlace "alpha").node {} content).id = (indexPlace "alpha").id := Place.node_id
  refine ⟨named, _, rfl, _, (mem_nodes_build_iff namedBy_twoSpellings).mpr (.document holds_index),
    _, (mem_nodes_build_iff namedBy_twoSpellings).mpr usage, hasLabel_indexPlace, ?_, ?_, ?_, ?_⟩
  · rw [Place.node_skill, Place.node_skill]
    rfl
  · rw [Place.node_id, Place.node_skill]
    decide
  · rw [indexId]
    refine linksTo.mpr (.inr ⟨_, indexLink_twoSpellings.mpr (.tail _ (.head _)), ?_, ?_⟩)
    · rw [Place.node_id]
      decide
    · rw [Place.node_id]
      decide
  · rw [indexId, contains]
    have apart : ∀ link ∈ [({ target := "nodes/intro".toList, label := none } : WikiLink),
        { target := "alpha/nodes/usage".toList, label := none }],
        link.path ≠ ("nodes/" ++ "usage").toList := by decide
    rintro ⟨link, listed, same⟩
    exact apart link (indexLink_twoSpellings.mp listed) same

end DocumentGraph.Document
