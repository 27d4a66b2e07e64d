import DocumentGraph.Proofs.Document.FileName
import DocumentGraph.Proofs.Document.Link
import Mathlib.Data.List.TakeWhile

namespace DocumentGraph.Document

open FileTree (FileAt NamedBy)

/-! Places of documents.

A place is a path taken apart: the skill, the directories below it, and the stem of the file name.
The id of a document is its place with slashes between the parts.  A location is the same in bytes,
and locations that are not texts can have one place.
-/

variable {options : Options} {names others : List String} {name : String}

theorem splitOn_joined (plain : ∀ name ∈ names, '/' ∉ name.toList) (nonempty : names ≠ []) :
    Text.splitOn '/' (String.intercalate "/" names).toList = names.map String.toList :=
  Text.splitOn_toList_intercalate rfl plain nonempty

/-- Names without slashes can be told from their path. -/
theorem joined_inj (plain : ∀ name ∈ names, '/' ∉ name.toList)
    (plain' : ∀ name ∈ others, '/' ∉ name.toList) (nonempty : names ≠ []) (nonempty' : others ≠ [])
    (same : String.intercalate "/" names = String.intercalate "/" others) : names = others := by
  have cut := splitOn_joined plain nonempty
  rw [same, splitOn_joined plain' nonempty'] at cut
  exact List.map_injective_iff.mpr (fun _ _ => String.toList_inj.mp) cut.symm

theorem undoubled_joined (undoubled : ∀ name ∈ names, Undoubled name.toList) :
    Undoubled (String.intercalate "/" names).toList := by
  induction names with
  | nil => exact undoubled_iff_isChain.mpr List.isChain_nil
  | cons name rest ih =>
      have later := ih fun other member => undoubled other (List.mem_cons_of_mem _ member)
      have here := undoubled name List.mem_cons_self
      cases rest with
      | nil => simpa using here
      | cons next rest =>
          rw [undoubled_iff_isChain] at here later ⊢
          rw [String.intercalate_cons_cons, String.toList_append, String.toList_append]
          have slash : ("/".toList ++ (String.intercalate "/" (next :: rest)).toList).IsChain
              fun c d => ¬ (c = '-' ∧ d = '-') :=
            List.isChain_append.mpr ⟨List.isChain_singleton _, later, by simp⟩
          rw [List.append_assoc]
          exact List.isChain_append.mpr ⟨here, slash, by simp⟩

theorem joined_concat_append (names : List String) (last tail : String) :
    String.intercalate "/" (names ++ [last ++ tail]) =
      String.intercalate "/" (names ++ [last]) ++ tail := by
  induction names with
  | nil => simp
  | cons name rest ih =>
      cases rest with
      | nil => simp [String.intercalate_cons_cons, String.append_assoc]
      | cons next rest =>
          simp only [List.cons_append] at ih ⊢
          rw [String.intercalate_cons_cons, ih, String.intercalate_cons_cons,
            ← String.append_assoc]

theorem skillOf_joined (plain : '/' ∉ name.toList) (rest : List String) :
    skillOf (String.intercalate "/" (name :: rest)) = name := by
  have taken : (String.intercalate "/" (name :: rest)).toList.takeWhile (· ≠ '/') =
      name.toList := by
    cases rest with
    | nil =>
        rw [String.intercalate_singleton, List.takeWhile_eq_self_iff]
        simpa using fun c member => ne_of_mem_of_not_mem member plain
    | cons next rest =>
        have joined : (String.intercalate "/" (name :: next :: rest)).toList =
            name.toList ++ '/' :: (String.intercalate "/" (next :: rest)).toList := by
          rw [String.intercalate_cons_cons, String.toList_append, String.toList_append,
            List.append_assoc]
          rfl
        rw [joined, Text.takeWhile_append_cons plain]
  rw [skillOf, taken, String.ofList_toList]

theorem skillOf_name (plain : '/' ∉ name.toList) : skillOf name = name := by
  simpa using skillOf_joined plain []

theorem isDocument_iff {name : FileName} : options.isDocument name = true ↔
    '.' ∉ options.extension.toList ∧
      ∃ stem : FileName, stem.bytes ≠ [] ∧ name = stem.append options.suffix := by
  have spelled (stem : FileName) : (stem.append options.suffix).bytes =
      stem.bytes ++ '.'.toUInt8 :: FileName.encode options.extension.toList := by
    rw [Options.suffix, FileName.append, FileName.encode_dot]
  rw [Options.isDocument, decide_eq_true_iff, FileName.extension?, ← FileName.dot_mem_encode_iff]
  constructor
  · intro document
    split at document
    · rename_i front behind cut
      obtain ⟨whole, last⟩ := Text.cutAtLast?_eq_some_iff.mp cut
      split at document
      · contradiction
      · rename_i nonempty
        obtain rfl := Option.some.inj document
        refine ⟨last, ⟨front⟩, by simpa using nonempty, ?_⟩
        exact congrArg FileName.mk (whole.trans (spelled ⟨front⟩).symm)
    · contradiction
  · rintro ⟨dotless, stem, nonempty, rfl⟩
    rw [spelled, Text.cutAtLast?_append _ dotless]
    simp [nonempty]

/-- A place for a document. -/
structure Place where
  skill : String
  directories : List String
  /-- The name of the file without the extension. -/
  stem : String

namespace Place

def path (options : Options) (place : Place) : List String :=
  place.skill :: (place.directories ++ [place.stem ++ options.suffix])

def id (place : Place) : String :=
  String.intercalate "/" (place.skill :: (place.directories ++ [place.stem]))

def node (options : Options) (place : Place) (content : String) : Node :=
  documentNode options place.skill (place.path options) content

end Place

theorem Place.joined_path (options : Options) (place : Place) :
    String.intercalate "/" (place.path options) = place.id ++ options.suffix :=
  joined_concat_append (place.skill :: place.directories) place.stem options.suffix

/-- A document at the top of a skill. -/
theorem Place.id_top (skill stem : String) :
    Place.id { skill, directories := [], stem } = skill ++ ("/" ++ stem) := by
  simp [Place.id, String.intercalate_cons_cons, String.append_assoc]

/-- A place in a file system. -/
structure Location where
  skill : FileName
  directories : List FileName
  /-- The name of the file without the extension. -/
  stem : FileName
deriving DecidableEq

namespace Location

def path (options : Options) (location : Location) : List FileName :=
  location.skill :: (location.directories ++ [location.stem.append options.suffix])

theorem path_tail_ne_nil (options : Options) (location : Location) :
    location.directories ++ [location.stem.append options.suffix] ≠ [] :=
  List.append_ne_nil_of_right_ne_nil _ (List.cons_ne_nil _ _)

def place (location : Location) : Place where
  skill := location.skill.shown
  directories := location.directories.map FileName.shown
  stem := location.stem.shown

theorem map_shown_path (options : Options) (location : Location) :
    (location.path options).map FileName.shown = location.place.path options := by
  rw [path, List.map_cons, List.map_append, List.map_singleton, Options.suffix,
    FileName.shown_append]
  rfl

end Location

/-- The location that is spelled like a place. -/
def Place.location (place : Place) : Location where
  skill := .ofText place.skill
  directories := place.directories.map .ofText
  stem := .ofText place.stem

/-- The tree has a document at a location: a text in a file with a stem, in no directory that is
passed over.  No file has an extension with a dot. -/
structure Options.HoldsAt (options : Options) (entries : List (FileName × FileTree))
    (location : Location) (content : String) : Prop where
  file : ∃ bytes, FileAt entries (location.path options) bytes ∧
    String.fromUTF8? bytes = some content
  followed : ∀ directory ∈ location.skill :: location.directories,
    options.skips directory.shown = false
  stem : location.stem.bytes ≠ []
  extension : '.' ∉ options.extension.toList

/-- The tree has a document that is shown at a place. -/
def Options.Holds (options : Options) (entries : List (FileName × FileTree)) (place : Place)
    (content : String) : Prop :=
  ∃ location : Location, location.place = place ∧ options.HoldsAt entries location content

variable {place place' : Place} {location location' : Location} {content content' : String}
  {entries : List (FileName × FileTree)} {node : Node}

theorem Options.HoldsAt.holds (holds : options.HoldsAt entries location content) :
    options.Holds entries location.place content :=
  ⟨location, rfl, holds⟩

/-- A node without its properties. -/
def bare (node : Node) : Node :=
  { node with properties := [] }

@[simp] theorem bare_id (node : Node) : (bare node).id = node.id := rfl

@[simp] theorem bare_labels (node : Node) : (bare node).labels = node.labels := rfl

@[simp] theorem bare_skill (node : Node) : (bare node).skill = node.skill := rfl

@[simp] theorem bare_path (node : Node) : (bare node).path = node.path := rfl

theorem eq_of_bare {other : Node} (same : bare node = bare other) :
    node.id = other.id ∧ node.labels = other.labels ∧ node.skill = other.skill := by
  rw [← bare_id, ← bare_labels, ← bare_skill, same]
  exact ⟨rfl, rfl, rfl⟩

/-- What is missing in the front matter changes the properties only. -/
theorem bare_fillMissing (key : String) (value : Option Property) (node : Node) :
    bare (fillMissing key value node) = bare node := by
  unfold fillMissing
  split
  case h_4 => rfl
  all_goals cases value <;> rfl

theorem bare_node (options : Options) (place : Place) (content : String) :
    bare (place.node options content) = {
      id := place.id
      labels := [labelOf options (place.path options)]
      skill := place.skill
      path := String.intercalate "/" (place.path options) } := by
  have id : String.ofList (Text.dropEnd options.suffix.toList
      (String.intercalate "/" (place.path options)).toList) = place.id := by
    rw [place.joined_path, String.toList_append, Text.dropEnd_append, String.ofList_toList]
  unfold Place.node documentNode
  rw [bare_fillMissing, bare_fillMissing, bare_fillMissing, id]
  rfl

theorem linkedEdges_bare (node : Node) (body : List Char) :
    linkedEdges (bare node) body = linkedEdges node body :=
  rfl

theorem Place.node_id : (place.node options content).id = place.id := by
  rw [← bare_id, bare_node]

theorem Place.node_labels :
    (place.node options content).labels = [labelOf options (place.path options)] := by
  rw [← bare_labels, bare_node]

theorem Place.node_skill : (place.node options content).skill = place.skill := by
  rw [← bare_skill, bare_node]

theorem Place.node_path : (place.node options content).path =
    String.intercalate "/" (place.path options) := by
  rw [← bare_path, bare_node]

/-- A name that is shown without slashes and without doubled dashes. -/
def Plain (name : FileName) : Prop :=
  '/' ∉ name.shown.toList ∧ Undoubled name.shown.toList

instance : DecidablePred Plain :=
  fun _ => inferInstanceAs (Decidable (_ ∧ _))

namespace Options.HoldsAt

variable {allowed : FileName → Prop} (named : NamedBy allowed entries)
  (holds : options.HoldsAt entries location content)

include named holds

/-- What is so for names, and for the stems of file names, is so for the parts of a location. -/
theorem forall_parts {p : FileName → Prop} (weaker : ∀ name, allowed name → p name)
    (stems : ∀ stem : FileName, allowed (stem.append options.suffix) → p stem) :
    ∀ name ∈ location.skill :: (location.directories ++ [location.stem]), p name := by
  obtain ⟨_, file, _⟩ := holds.file
  have stored := file.allowed_of_mem named
  rw [← List.cons_append, List.forall_mem_append, List.forall_mem_singleton]
  constructor
  · exact fun name member => weaker name
      (stored name (List.mem_append_left [location.stem.append options.suffix] member))
  · exact stems _ (stored _ (by rw [Location.path]; simp))

theorem content_eq (holds' : options.HoldsAt entries location content') : content = content' := by
  obtain ⟨bytes, file, text⟩ := holds.file
  obtain ⟨bytes', file', text'⟩ := holds'.file
  rw [file.bytes_eq named file', text'] at text
  exact (Option.some.inj text).symm

end Options.HoldsAt

namespace Options.Holds

variable (named : NamedBy Plain entries) (holds : options.Holds entries place content)

include named holds

theorem plain : ∀ name ∈ place.skill :: (place.directories ++ [place.stem]),
    '/' ∉ name.toList ∧ Undoubled name.toList := by
  obtain ⟨location, rfl, holds⟩ := holds
  have parts := holds.forall_parts named (p := Plain) (fun _ plain => plain) fun stem plain => by
    rw [Plain, Options.suffix, FileName.shown_append, String.toList_append] at plain
    exact ⟨fun member => plain.1 (List.mem_append_left _ member), plain.2.left_of_append⟩
  have shown : location.place.skill :: (location.place.directories ++ [location.place.stem]) =
      (location.skill :: (location.directories ++ [location.stem])).map FileName.shown := by
    simp [Location.place]
  rw [shown, List.forall_mem_map]
  exact parts

theorem skillOf_id : skillOf place.id = place.skill :=
  skillOf_joined (plain named holds _ List.mem_cons_self).1 _

theorem undoubled_id : Undoubled place.id.toList :=
  undoubled_joined fun name member => (plain named holds name member).2

theorem place_eq (holds' : options.Holds entries place' content') (same : place.id = place'.id) :
    place = place' := by
  have parts := joined_inj (fun name member => (plain named holds name member).1)
    (fun name member => (plain named holds' name member).1) (List.cons_ne_nil _ _)
    (List.cons_ne_nil _ _) same
  obtain ⟨skills, behind⟩ := List.cons.inj parts
  obtain ⟨directories, stems⟩ := List.append_inj' behind rfl
  cases place
  cases place'
  simp_all

end Options.Holds

/-- Where all names are texts, a location is known from its place. -/
theorem Options.HoldsAt.location_place {allowed : FileName → Prop} (named : NamedBy allowed entries)
    (texts : ∀ name, allowed name → name.IsText)
    (holds : options.HoldsAt entries location content) : location.place.location = location := by
  have parts := holds.forall_parts named texts fun stem stored => (texts _ stored).of_append
  have whole {name : FileName}
      (member : name ∈ location.skill :: (location.directories ++ [location.stem])) :
      FileName.ofText name.shown = name :=
    (parts name member).ofText_shown
  have directories : (location.directories.map FileName.shown).map FileName.ofText =
      location.directories := by
    rw [List.map_map]
    exact (List.map_congr_left fun name member => whole (by simp [member])).trans (List.map_id _)
  rw [Place.location, Location.place, whole (by simp), whole (by simp), directories]

theorem accepts_concat {directories : List FileName} {name : FileName} :
    options.Accepts (directories ++ [name]) ↔
      (∀ directory ∈ directories, options.skips directory.shown = false) ∧
        options.isDocument name = true := by
  simp [Options.Accepts]

/-- The accepted paths in a skill are those of its locations. -/
theorem exists_location_iff {skill : FileName} {rest : List FileName} (nonempty : rest ≠ []) :
    options.skips skill.shown = false ∧ options.Accepts rest ↔
      ∃ location : Location, location.skill = skill ∧ location.path options = skill :: rest ∧
        (∀ directory ∈ location.skill :: location.directories,
          options.skips directory.shown = false) ∧
        location.stem.bytes ≠ [] ∧ '.' ∉ options.extension.toList := by
  constructor
  · rintro ⟨here, accepted⟩
    obtain ⟨directories, file, rfl⟩ := (List.eq_nil_or_concat' rest).resolve_left nonempty
    obtain ⟨followed, document⟩ := accepts_concat.mp accepted
    obtain ⟨dotless, stem, stemmed, rfl⟩ := isDocument_iff.mp document
    exact ⟨⟨skill, directories, stem⟩, rfl, rfl, List.forall_mem_cons.mpr ⟨here, followed⟩,
      stemmed, dotless⟩
  · rintro ⟨⟨_, directories, stem⟩, rfl, same, followed, stemmed, dotless⟩
    obtain rfl := (List.cons.inj same).2
    obtain ⟨here, followed⟩ := List.forall_mem_cons.mp followed
    exact ⟨here, accepts_concat.mpr ⟨followed, isDocument_iff.mpr ⟨dotless, stem, stemmed, rfl⟩⟩⟩

/-- The documents that a build finds in a skill. -/
def skillDocuments (options : Options) (skill : String) (below : List (FileName × FileTree)) :
    List (Node × List Char) :=
  documents options skill
    (((sourcesByName options [skill] below).mergeSort byName).flatMap Prod.snd)

theorem mem_documents {skill : String} {sources : List Source} {body : List Char} :
    (node, body) ∈ documents options skill sources ↔
      ∃ source ∈ sources, ∃ content, String.fromUTF8? source.bytes = some content ∧
        node = documentNode options skill source.path content ∧
        body = (FrontMatter.split content.toList).body := by
  simp only [documents, List.mem_filterMap]
  refine exists_congr fun source => and_congr_right fun _ => ?_
  cases String.fromUTF8? source.bytes with
  | none => simp
  | some content => simp [eq_comm]

theorem mem_skillDocuments {allowed : FileName → Prop} (named : NamedBy allowed entries)
    {skill : FileName} {below : List (FileName × FileTree)}
    (stored : (skill, .directory below) ∈ entries)
    (followed : options.skips skill.shown = false) {body : List Char} :
    (node, body) ∈ skillDocuments options skill.shown below ↔
      ∃ location content, location.skill = skill ∧ options.HoldsAt entries location content ∧
        node = location.place.node options content ∧
        body = (FrontMatter.split content.toList).body := by
  rw [skillDocuments, mem_documents]
  constructor
  · rintro ⟨source, member, content, text, rfl, rfl⟩
    obtain ⟨rest, file, accepted, placed⟩ :=
      (mem_sourcesByName options [skill.shown] source below).mp (mem_flatMap_sort.mp member)
    obtain ⟨location, rfl, same, searched, stemmed, dotless⟩ :=
      (exists_location_iff file.ne_nil).mp ⟨followed, accepted⟩
    refine ⟨location, content, rfl, ⟨⟨source.bytes, ?_, text⟩, searched, stemmed, dotless⟩, ?_, rfl⟩
    · rw [same]
      exact .inside stored file
    · rw [placed, Place.node, ← location.map_shown_path, same]
      rfl
  · rintro ⟨location, content, rfl, holds, rfl, rfl⟩
    obtain ⟨bytes, file, text⟩ := holds.file
    have nonempty := location.path_tail_ne_nil options
    obtain ⟨_, accepted⟩ := (exists_location_iff nonempty).mpr
      ⟨location, rfl, rfl, holds.followed, holds.stem, holds.extension⟩
    obtain ⟨_, stored', deeper⟩ := file.exists_directory nonempty
    obtain rfl := FileTree.directory.inj (named.tree_eq stored stored')
    refine ⟨⟨location.place.path options, bytes⟩, ?_, content, text, rfl, rfl⟩
    exact mem_flatMap_sort.mpr ((mem_sourcesByName options _ _ below).mpr
      ⟨_, deeper, accepted, (location.map_shown_path options).symm⟩)

end DocumentGraph.Document
