import DocumentGraph.Proofs.Document.Build
import DocumentGraph.Proofs.Document.Way
import DocumentGraph.Proofs.Document.Woven

namespace DocumentGraph.Document

open FileTree (NamedBy walk)

/-! References from one document to another.

The path from a document to another one is read in two ways.  A path that leads down is put behind
the directory of its document, and so comes to the id of the other one.  A path that leads up is
taken from the root, so it comes to ids in other skills only.
-/

variable {options : Options} {entries : List (FileName × FileTree)} {source target : Location}
  {content content' : String} {names : List String}

def Place.directory (place : Place) : List String :=
  place.skill :: place.directories

theorem Place.directory_ne_nil (place : Place) : place.directory ≠ [] :=
  List.cons_ne_nil _ _

def Location.directory (location : Location) : List FileName :=
  location.skill :: location.directories

theorem Location.map_shown_directory (location : Location) :
    location.directory.map FileName.shown = location.place.directory :=
  rfl

/-- The way from the directory of a document to another document. -/
def Location.way (options : Options) (source target : Location) : List FileName :=
  wayTo source.directory target.directory ++ [target.stem.append options.suffix]

/-- The way as a path in one text. -/
def Location.href (options : Options) (source target : Location) : String :=
  String.intercalate "/" ((source.way options target).map FileName.shown)

theorem Options.HoldsAt.isFileName (named : NamedBy IsFileName entries)
    (holds : options.HoldsAt entries source content) :
    ∀ name ∈ source.directory, IsFileName name := by
  obtain ⟨_, file, _⟩ := holds.file
  exact fun name member => file.allowed_of_mem named name (List.mem_append_left _ member)

theorem Options.HoldsAt.file_slashless (named : NamedBy IsFileName entries)
    (holds : options.HoldsAt entries source content) :
    '/' ∉ (source.stem.shown ++ options.suffix).toList := by
  obtain ⟨_, file, _⟩ := holds.file
  have last := file.allowed_of_mem named (source.stem.append options.suffix)
    (List.mem_append_right source.directory (List.mem_singleton_self _))
  rw [Options.suffix, ← FileName.shown_append]
  exact last.2

theorem Options.HoldsAt.stem_slashless (named : NamedBy IsFileName entries)
    (holds : options.HoldsAt entries source content) : '/' ∉ source.stem.shown.toList := by
  intro member
  exact holds.file_slashless named (by simp [member])

theorem dropExtension_href (markdown : options.extension = "md") (source target : Location) :
    dropExtension (source.href options target).toList = (String.intercalate "/"
      ((wayTo source.directory target.directory).map FileName.shown ++
        [target.stem.shown])).toList := by
  have suffix : options.suffix.toList = ['.', 'm', 'd'] := by
    rw [Options.suffix, markdown]
    decide
  have whole : source.href options target = String.intercalate "/"
      ((wayTo source.directory target.directory).map FileName.shown ++
        [target.stem.shown ++ options.suffix]) := by
    rw [Location.href, Location.way, List.map_append, List.map_singleton, Options.suffix,
      FileName.shown_append]
  rw [whole, joined_concat_append, String.toList_append, suffix, dropExtension, Text.dropEnd_append]

theorem slashless_of_mem_way (named : NamedBy IsFileName entries)
    (holds' : options.HoldsAt entries target content') :
    ∀ name ∈ source.way options target, '/' ∉ name.shown.toList := by
  obtain ⟨common, _, there, _⟩ := exists_common source.directory target.directory
  have climbs : ∀ name ∈ climb (apart source.directory target.directory).1,
      '/' ∉ name.shown.toList := by
    unfold climb
    split <;> simp
  rw [Location.way, wayTo, List.forall_mem_append, List.forall_mem_append,
    List.forall_mem_singleton, Options.suffix, FileName.shown_append]
  refine ⟨⟨climbs, fun name member => ?_⟩, holds'.file_slashless named⟩
  exact (holds'.isFileName named name (there ▸ List.mem_append_right common member)).2

/-- The segments of the path are the names on the way, if those are texts. -/
theorem segments_href (named : NamedBy IsFileName entries)
    (holds' : options.HoldsAt entries target content')
    (texts : ∀ name ∈ source.way options target, name.IsText) :
    (Text.splitOn '/' (source.href options target).toList).map
      (fun segment => FileName.ofText (String.ofList segment)) = source.way options target := by
  have nonempty : (source.way options target).map FileName.shown ≠ [] := by
    simp [Location.way]
  have plain : ∀ name ∈ source.way options target, '/' ∉ name.shown.toList :=
    slashless_of_mem_way named holds'
  rw [Location.href, splitOn_joined (List.forall_mem_map.mpr plain) nonempty, List.map_map,
    List.map_map]
  refine (List.map_congr_left fun name member => ?_).trans (List.map_id _)
  simpa using (texts name member).ofText_shown

/-- A path that begins with a double dot goes on behind it. -/
theorem begins_up (plain : ∀ name ∈ names, '/' ∉ name.toList)
    (begins : ['.', '.', '/'] <+: (String.intercalate "/" names).toList) :
    names.head? = some ".." ∧ names.tail ≠ [] := by
  obtain ⟨behind, spelled⟩ := begins
  cases names with
  | nil => simp at spelled
  | cons name rest =>
      have first := skillOf_joined (plain name List.mem_cons_self) rest
      rw [skillOf, ← spelled] at first
      obtain rfl : ".." = name := by simpa using first
      refine ⟨rfl, ?_⟩
      rintro rfl
      simp at spelled

/-- A character that divides a path is written with a slash. -/
def slashed (c : Char) : Char :=
  if c = '\\' then '/' else c

theorem not_mem_map_slashed (text : List Char) : '\\' ∉ text.map slashed := by
  simp only [List.mem_map, slashed, not_exists, not_and]
  intro c _
  split
  · decide
  · assumption

theorem map_slashed_eq_self {text : List Char} (plain : '\\' ∉ text) : text.map slashed = text := by
  calc text.map slashed
      = text.map id := List.map_congr_left fun c member =>
        if_neg (ne_of_mem_of_not_mem member plain)
    _ = text := List.map_id text

theorem mem_map_slashed {text : List Char} (divided : '\\' ∈ text) : '/' ∈ text.map slashed :=
  List.mem_map.mpr ⟨'\\', divided, rfl⟩

/-- The text in front of a path inside a skill that leads down. -/
def baseOf (node : Node) : String :=
  match nestedDirectory? node with
  | some directory => String.ofList directory
  | none => node.skill

theorem Place.joined_directory (options : Options) (place : Place) :
    String.intercalate "/" (place.path options) =
      String.intercalate "/" place.directory ++ "/" ++ (place.stem ++ options.suffix) := by
  have joined := String.intercalate_append_of_ne_nil (s := "/") place.directory_ne_nil
    (List.cons_ne_nil (place.stem ++ options.suffix) [])
  rwa [String.intercalate_singleton] at joined

theorem baseOf_eq_iff {place : Place} (plain : '/' ∉ (place.stem ++ options.suffix).toList) :
    baseOf (place.node options content) = String.intercalate "/" place.directory ↔
      '\\' ∉ (place.node options content).path.toList := by
  generalize node : place.node options content = u
  have skill : u.skill = place.skill := node ▸ Place.node_skill
  obtain ⟨inner, file, path, whole, last⟩ : ∃ inner file,
      u.path.toList = inner ++ '/' :: file ∧
        inner = (String.intercalate "/" place.directory).toList ∧
        '/' ∉ file := by
    refine ⟨_, _, ?_, rfl, plain⟩
    rw [← node, Place.node_path, Place.joined_directory, String.toList_append, String.toList_append,
      List.append_assoc]
    rfl
  have replaced : (u.path.toList.map fun c => if c = '\\' then '/' else c) =
      inner.map slashed ++ '/' :: file.map slashed := by
    rw [path, List.map_append, List.map_cons]
    rfl
  rw [path, List.mem_append, List.mem_cons, not_or, not_or]
  unfold baseOf nestedDirectory?
  rw [replaced]
  dsimp only
  constructor
  · intro same
    cases found : Text.cutAtLast? '/' (inner.map slashed ++ '/' :: file.map slashed) with
    | none => simp [Text.cutAtLast?] at found
    | some parts =>
        obtain ⟨directory, behind⟩ := parts
        obtain ⟨divided, rest⟩ := Text.cutAtLast?_eq_some_iff.mp found
        rw [found] at same
        by_cases nested : '/' ∈ directory
        · have kept : directory = inner := by
            rw [whole, ← same]
            simp [nested]
          subst kept
          obtain ⟨solid, solid'⟩ := List.append_inj divided (List.length_map _)
          have behind := (List.cons.inj solid').2
          refine ⟨?_, by decide, fun backslash => rest (behind ▸ mem_map_slashed backslash)⟩
          rw [← solid]
          exact not_mem_map_slashed _
        · -- There is one slash only, the one in front of the file name.
          have slashes := congrArg (List.count '/') divided
          rw [List.count_append, List.count_append, List.count_cons_self, List.count_cons_self,
            List.count_eq_zero_of_not_mem nested, List.count_eq_zero_of_not_mem rest] at slashes
          have none {text : List Char} (none : (text.map slashed).count '/' = 0) : '\\' ∉ text :=
            fun backslash => List.count_eq_zero.mp none (mem_map_slashed backslash)
          exact ⟨none (by omega), by decide, none (by omega)⟩
  · rintro ⟨solid, _, solid'⟩
    rw [map_slashed_eq_self solid, map_slashed_eq_self solid', Text.cutAtLast?_append inner last]
    by_cases nested : '/' ∈ inner
    · simp only [nested, if_true]
      rw [whole, String.ofList_toList]
    · simp only [nested, if_false, skill]
      rw [whole, Place.directory] at nested
      rw [Place.directory]
      cases deeper : place.directories with
      | nil => rw [String.intercalate_singleton]
      | cons next others =>
          rw [deeper, String.intercalate_cons_cons] at nested
          exact absurd (by simp) nested

/-- Where the way leads down only, a path is put behind the directory of its document, with slashes
for backslashes. -/
theorem resolvePath?_down (markdown : options.extension = "md") (named : NamedBy IsFileName entries)
    (holds : options.HoldsAt entries source content)
    (holds' : options.HoldsAt entries target content')
    (below : source.directory <+: target.directory) :
    resolvePath? (source.href options target).toList (source.place.node options content) =
        some target.place.id ↔
      '\\' ∉ (source.place.node options content).path.toList := by
  obtain ⟨down, deeper⟩ := below
  have file : ∀ name ∈ down, IsFileName name := fun name member =>
    holds'.isFileName named name (deeper ▸ List.mem_append_right _ member)
  have plain : ∀ name ∈ down.map FileName.shown ++ [target.stem.shown], '/' ∉ name.toList := by
    rw [List.forall_mem_append, List.forall_mem_map, List.forall_mem_singleton]
    exact ⟨fun name member => (file name member).2, holds'.stem_slashless named⟩
  have path : Text.dropFront ['.', '/'] (dropExtension (source.href options target).toList) =
      (String.intercalate "/" (down.map FileName.shown ++ [target.stem.shown])).toList := by
    rw [dropExtension_href markdown, ← deeper, wayTo_append, List.map_cons, List.cons_append,
      String.intercalate_cons_of_ne_nil (by simp), String.toList_append, String.toList_append,
      List.append_assoc, FileName.shown_ofText]
    rfl
  have inside : ['.', '.', '/'].isPrefixOf
      (String.intercalate "/" (down.map FileName.shown ++ [target.stem.shown])).toList = false := by
    rw [← Bool.not_eq_true, List.isPrefixOf_iff_prefix]
    intro begins
    obtain ⟨first, further⟩ := begins_up plain begins
    cases down with
    | nil => exact further rfl
    | cons name down =>
        have dots : name.shown = ".." := Option.some.inj first
        exact (file name List.mem_cons_self).1 (by simp [dots])
  have id : target.place.id = String.intercalate "/" source.place.directory ++ "/" ++
      String.intercalate "/" (down.map FileName.shown ++ [target.stem.shown]) := by
    rw [← String.intercalate_append_of_ne_nil source.place.directory_ne_nil (by simp),
      ← List.append_assoc, ← source.map_shown_directory, ← List.map_append, deeper]
    rfl
  have resolved : resolvePath? (source.href options target).toList
      (source.place.node options content) =
      some (baseOf (source.place.node options content) ++ "/" ++
        String.intercalate "/" (down.map FileName.shown ++ [target.stem.shown])) := by
    unfold resolvePath? baseOf
    simp only [path, inside, Bool.false_eq_true, if_false, String.ofList_toList]
    cases nestedDirectory? (source.place.node options content) <;> rfl
  rw [resolved, id, Option.some.injEq, String.append_left_inj, String.append_left_inj]
  exact baseOf_eq_iff (holds.file_slashless named)

/-- Names on a path that leads up, without the double dots, taken from the root. -/
def rooted (names : List String) : Option String :=
  if names.filter (· ≠ "..") = [] then none
  else some (String.intercalate "/" (names.filter (· ≠ "..")))

theorem resolvePath?_of_up {α : Type} {path : List Char} {up : List α} {down : List String}
    (node : Node) (climbs : up ≠ []) (further : down ≠ [])
    (plain : ∀ name ∈ down, '/' ∉ name.toList)
    (spelled : dropExtension path =
      (String.intercalate "/" (up.map (fun _ => "..") ++ down)).toList) :
    resolvePath? path node = rooted down := by
  obtain ⟨first, others, rfl⟩ := List.exists_cons_of_ne_nil climbs
  obtain ⟨behind, begun⟩ : ∃ behind, dropExtension path = '.' :: '.' :: '/' :: behind := by
    rw [spelled, List.map_cons, List.cons_append,
      String.intercalate_cons_of_ne_nil (List.append_ne_nil_of_right_ne_nil _ further),
      String.toList_append, String.toList_append, List.append_assoc]
    exact ⟨_, rfl⟩
  have whole : Text.dropFront ['.', '/'] (dropExtension path) = dropExtension path := by
    rw [begun]
    rfl
  have leads : ['.', '.', '/'].isPrefixOf (dropExtension path) = true := by
    rw [begun]
    rfl
  have parts : (Text.splitOn '/' (dropExtension path)).filter (· ≠ ['.', '.']) =
      (down.filter (· ≠ "..")).map String.toList := by
    have apart : ∀ name ∈ (first :: others).map (fun _ => "..") ++ down, '/' ∉ name.toList := by
      rw [List.forall_mem_append, List.forall_mem_map]
      exact ⟨fun _ _ => by decide, plain⟩
    have dotted : (fun text => decide (text ≠ ['.', '.'])) ∘ String.toList =
        fun name => decide (name ≠ "..") := by
      funext name
      have same : name.toList = "..".toList ↔ name = ".." := String.toList_inj
      exact decide_eq_decide.mpr (not_congr same)
    have dots : ((first :: others).map fun _ => "..").filter (· ≠ "..") = [] := by
      simp
    rw [spelled, splitOn_joined apart (by simp), List.filter_map, dotted, List.filter_append, dots,
      List.nil_append]
  unfold resolvePath? rooted
  simp only [whole, leads, if_true, parts]
  cases down.filter (· ≠ "..") with
  | nil => rfl
  | cons name names =>
      rw [if_neg (List.cons_ne_nil _ _), ← String.ofList_toList (s := String.intercalate _ _),
        String.toList_intercalate]
      rfl

theorem filter_ne_dots {names : List FileName} (file : ∀ name ∈ names, IsFileName name) :
    (names.map FileName.shown).filter (· ≠ "..") = names.map FileName.shown := by
  rw [List.filter_eq_self, List.forall_mem_map]
  intro name member
  refine decide_eq_true fun dots => ?_
  exact (file name member).1 (by simp [dots])

/-- Names that are left when those of both paths are taken away make the whole path just if the two
paths begin with different skills. -/
theorem eq_directory_iff {common up down : List FileName} (here : source.directory = common ++ up)
    (there : target.directory = common ++ down) (climbs : up ≠ [])
    (differ : ∀ name ∈ up.head?, name ∉ down.head?) :
    down = target.directory ↔ source.skill ≠ target.skill := by
  rw [there, List.self_eq_append_left]
  cases common with
  | nil =>
      refine iff_of_true rfl fun same => ?_
      obtain rfl : source.directory = up := here
      obtain rfl : target.directory = down := there
      exact differ source.skill rfl (congrArg some same.symm)
  | cons name common =>
      refine iff_of_false (List.cons_ne_nil _ _) fun different => different ?_
      exact (List.cons.inj here).1.trans (List.cons.inj there).1.symm

/-- Where the way leads up, the double dots are left out, and the rest is taken from the root. -/
theorem resolvePath?_up (markdown : options.extension = "md") (named : NamedBy IsFileName entries)
    (holds' : options.HoldsAt entries target content')
    (beside : ¬ source.directory <+: target.directory) (node : Node) :
    resolvePath? (source.href options target).toList node = some target.place.id ↔
      source.skill ≠ target.skill ∧ target.stem.shown ≠ ".." := by
  obtain ⟨common, up, down, here, there, climbs, differ, way⟩ := exists_wayTo beside
  have file : ∀ name ∈ target.directory, IsFileName name := holds'.isFileName named
  have kept := filter_ne_dots fun name member => file name (there ▸ List.mem_append_right _ member)
  have whole : ∀ name ∈ target.place.directory ++ [target.place.stem], '/' ∉ name.toList := by
    rw [List.forall_mem_append, List.forall_mem_singleton, ← target.map_shown_directory,
      List.forall_mem_map]
    exact ⟨fun name member => (file name member).2, holds'.stem_slashless named⟩
  have apart : target.place.directory = common.map FileName.shown ++ down.map FileName.shown := by
    rw [← target.map_shown_directory, there, List.map_append]
  have part : ∀ name ∈ down.map FileName.shown ++ [target.stem.shown], '/' ∉ name.toList :=
    fun name member => whole name (by
      rw [apart, List.append_assoc]
      exact List.mem_append_right _ member)
  have spelled : dropExtension (source.href options target).toList = (String.intercalate "/"
      (up.map (fun _ => "..") ++ (down.map FileName.shown ++ [target.stem.shown]))).toList := by
    rw [dropExtension_href markdown, way]
    simp
  rw [resolvePath?_of_up node climbs (by simp) part spelled, rooted, List.filter_append, kept,
    ← eq_directory_iff here there climbs differ]
  by_cases dotted : target.stem.shown = ".."
  · refine iff_of_false ?_ fun ⟨_, plain⟩ => plain dotted
    have nothing : [target.stem.shown].filter (· ≠ "..") = [] := by simp [dotted]
    rw [nothing, List.append_nil]
    intro same
    split at same
    · contradiction
    · rename_i nonempty
      have names := joined_inj (fun name member => part name (List.mem_append_left _ member)) whole
        nonempty (by simp) (Option.some.inj same)
      have lengths := congrArg List.length names
      rw [apart] at lengths
      simp only [List.length_append, List.length_singleton] at lengths
      omega
  · have stem : [target.stem.shown].filter (· ≠ "..") = [target.stem.shown] := by simp [dotted]
    rw [stem, if_neg (by simp), Option.some.injEq, and_iff_left dotted]
    constructor
    · intro same
      have names := List.append_cancel_right (joined_inj part whole (by simp) (by simp) same)
      rw [apart, List.self_eq_append_left, List.map_eq_nil_iff] at names
      rw [there, names, List.nil_append]
    · intro same
      rw [same]
      rfl

variable {node : Node} {body : List Char} {link : PathLink}

theorem PathLink.Fits.tight (fits : link.Fits) : Text.Tight link.path := by
  obtain ⟨inner, _, spelled⟩ := fits.document
  rw [spelled]
  constructor
  · intro c head
    obtain rfl : '.' = c := Option.some.inj head
    decide
  · intro c last
    rw [← List.cons_append, List.getLast?_append] at last
    obtain rfl : 'd' = c := Option.some.inj last
    decide

/-- A link by path that leads to a target makes a reference to it. -/
theorem exists_reference {target : String} (found : link ∈ pathLinks body)
    (leads : resolvePath? link.path node = some target) :
    ∃ edge ∈ edges node body, edge.type = "REFERENCES" ∧ edge.target = target := by
  refine (exists_mem_edges_iff (p := (· = "REFERENCES"))).mpr ?_
  obtain ⟨_, fits, _⟩ := searches_pathLinks.exists_matched found
  have trimmed := fits.tight.trim_eq
  have offered : ∃ edge ∈ pathLinkEdges node link,
      edge.type = "REFERENCES" ∧ edge.target = target := by
    unfold pathLinkEdges
    rw [trimmed, leads]
    exact (exists_mem_linkEdges (p := (· = "REFERENCES"))).mpr
      ⟨rfl, "REFERENCES", .inl (List.mem_singleton_self _), rfl⟩
  obtain ⟨edge, member, typed⟩ := offered
  exact ⟨edge, List.mem_append_right _ (List.mem_flatMap.mpr ⟨link, found, member⟩), typed⟩

/-- Along the path from one document to another a file system comes to the other one, and a path of
texts can be written.  If the other document lies in the directory of the first one or below, the
path leads to its id, unless backslashes on the way to the first one are taken for slashes.  Any
other path loses its double dots and is taken from the root, so it leads to the id of a document in
another skill, and of no other.  Where it leads to the id, each link with it in the text of the first
document is a reference to the other one; in a text with links between pieces that have no opening
bracket, each link is found. -/
theorem href_leads (markdown : options.extension = "md") (named : NamedBy IsFileName entries)
    (holds : options.HoldsAt entries source content)
    (holds' : options.HoldsAt entries target content') :
    let node := source.place.node options content
    let href := (source.href options target).toList
    let text := (FrontMatter.split content.toList).body
    (∃ bytes, walk [] (.directory entries) (source.directory ++ source.way options target) =
      .ok (.file bytes) ∧ String.fromUTF8? bytes = some content') ∧
    ((∀ name ∈ source.way options target, name.IsText) → (Text.splitOn '/' href).map
      (fun segment => FileName.ofText (String.ofList segment)) = source.way options target) ∧
    (source.directory <+: target.directory →
      (resolvePath? href node = some target.place.id ↔ '\\' ∉ node.path.toList)) ∧
    (¬ source.directory <+: target.directory →
      (resolvePath? href node = some target.place.id ↔
        source.skill ≠ target.skill ∧ target.stem.shown ≠ "..")) ∧
    (resolvePath? href node = some target.place.id → ∀ link ∈ pathLinks text, link.path = href →
      (∃ edge ∈ edges node text, edge.type = "REFERENCES" ∧ edge.target = target.place.id) ∧
      (NamedBy Plain entries →
        (build options entries).Joins source.place.id "REFERENCES" target.place.id)) ∧
    ∀ pieces rest, (∀ piece ∈ pieces, '[' ∉ piece.1 ∧ piece.2.Fits) → '[' ∉ rest →
      pathLinks (woven PathLink.written pieces rest) = pieces.map Prod.snd := by
  intro node href text
  obtain ⟨_, file, _⟩ := holds.file
  obtain ⟨bytes, file', text'⟩ := holds'.file
  refine ⟨⟨bytes, walk_wayTo named file file', text'⟩, segments_href named holds',
    resolvePath?_down markdown named holds holds', fun beside =>
      resolvePath?_up markdown named holds' beside node, ?_, ?_⟩
  · intro leads link found spelled
    have referring := exists_reference found (spelled ▸ leads)
    refine ⟨referring, fun plain => (joins_build plain).mpr ⟨?_, .inl ?_⟩⟩
    · obtain ⟨node, present, same⟩ := (NodeOf.document holds'.holds).exists_id_eq plain
      exact ⟨node, present, same.trans Place.node_id⟩
    · obtain ⟨edge, member, type, reached⟩ := referring
      exact ⟨source.place, content, holds.holds, edge, member,
        (leaves_of_mem_edges member).source.trans Place.node_id, type, reached⟩
  · intro pieces rest fits last
    rw [pathLinks_woven rest (fun piece member => (fits piece member).2)
      fun piece member => (fits piece member).1, pathLinks_of_not_mem last, List.append_nil]

/-- Two skills.  A document refers to the index of its own skill and to the entry of the other. -/
def crossReferences : List (FileName × FileTree) :=
  [("alpha", .directory [
    ("index.md", .file "".toUTF8),
    ("nodes", .directory [
      ("intro.md", .file "See [the index](../index.md), [the entry](../../beta/SKILL.md).".toUTF8)])]),
    ("beta", .directory [("SKILL.md", .file "".toUTF8)])]

theorem namedBy_crossReferences :
    NamedBy (fun name => IsFileName name ∧ Plain name) crossReferences := by
  refine .intro (by decide) (by decide) fun name inner stored => ?_
  simp only [crossReferences, List.mem_cons, List.not_mem_nil, Prod.mk.injEq,
    FileTree.directory.injEq, or_false] at stored
  rcases stored with ⟨_, rfl⟩ | ⟨_, rfl⟩
  · refine .intro (by decide) (by decide) fun name inner stored => ?_
    obtain ⟨_, rfl⟩ : name = "nodes" ∧ inner = _ := by simpa using stored
    exact .intro (by decide) (by decide) fun name inner stored => by simp at stored
  · exact .intro (by decide) (by decide) fun name inner stored => by simp at stored

theorem holds_entry : Options.HoldsAt {} crossReferences ⟨"beta", [], "SKILL"⟩ "" where
  file := ⟨_, .inside (.tail _ (.head _)) (.entry (.head _)), fromUTF8?_toUTF8 _⟩
  followed := List.forall_mem_singleton.mpr (by decide +kernel)
  stem := by decide
  extension := by decide

theorem holds_reference : Options.HoldsAt {} crossReferences ⟨"alpha", ["nodes"], "intro"⟩
    "See [the index](../index.md), [the entry](../../beta/SKILL.md)." where
  file := ⟨_, .inside (.head _) (.inside (.tail _ (.head _)) (.entry (.head _))),
    fromUTF8?_toUTF8 _⟩
  followed := List.forall_mem_cons.mpr
    ⟨by decide +kernel, List.forall_mem_singleton.mpr (by decide +kernel)⟩
  stem := by decide
  extension := by decide

theorem holds_top : Options.HoldsAt {} crossReferences ⟨"alpha", [], "index"⟩ "" where
  file := ⟨_, .inside (.head _) (.entry (.head _)), fromUTF8?_toUTF8 _⟩
  followed := List.forall_mem_singleton.mpr (by decide +kernel)
  stem := by decide
  extension := by decide

/-- The path to the entry of the other skill makes a reference. -/
theorem href_leads_entry :
    Location.href {} ⟨"alpha", ["nodes"], "intro"⟩ ⟨"beta", [], "SKILL"⟩ = "../../beta/SKILL.md" ∧
    (build {} crossReferences).Joins "alpha/nodes/intro" "REFERENCES" "beta/SKILL" := by
  have named : NamedBy IsFileName crossReferences :=
    namedBy_crossReferences.mono fun _ both => both.1
  obtain ⟨_, _, _, up, referring, _⟩ := href_leads rfl named holds_reference holds_entry
  have leads := (up (by decide)).mpr ⟨by decide, by decide⟩
  have links : pathLinks (FrontMatter.split
      "See [the index](../index.md), [the entry](../../beta/SKILL.md).".toList).body =
      [{ text := "the index".toList, path := "../index.md".toList },
        { text := "the entry".toList, path := "../../beta/SKILL.md".toList }] := by
    decide +kernel
  have href : Location.href {} ⟨"alpha", ["nodes"], "intro"⟩ ⟨"beta", [], "SKILL"⟩ =
      "../../beta/SKILL.md" := by decide +kernel
  have found : ⟨"the entry".toList, "../../beta/SKILL.md".toList⟩ ∈ pathLinks (FrontMatter.split
      "See [the index](../index.md), [the entry](../../beta/SKILL.md).".toList).body := by
    rw [links]
    exact .tail _ (.head _)
  exact ⟨href, (referring leads _ found (congrArg String.toList href.symm)).2
    (namedBy_crossReferences.mono fun _ both => both.2)⟩

/-- The path to the index of the same skill leads to no id of a document. -/
theorem href_lost :
    NamedBy IsFileName crossReferences ∧ ∃ source target content content',
      Options.HoldsAt {} crossReferences source content ∧
      Options.HoldsAt {} crossReferences target content' ∧
      source.href {} target = "../index.md" ∧ target.place.id = "alpha/index" ∧
      resolvePath? "../index.md".toList (source.place.node {} content) = some "index" := by
  refine ⟨namedBy_crossReferences.mono fun _ both => both.1, _, _, _, _, holds_reference, holds_top,
    by decide +kernel, by decide +kernel, ?_⟩
  have spelled : dropExtension "../index.md".toList =
      (String.intercalate "/" ([".."].map (fun _ => "..") ++ ["index"])).toList := by
    decide +kernel
  exact resolvePath?_of_up _ (by decide) (by decide) (by decide) spelled

end DocumentGraph.Document
