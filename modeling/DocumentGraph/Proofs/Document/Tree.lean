import DocumentGraph.Document.Build
import Mathlib.Data.List.Nodup

namespace DocumentGraph.Document

/-! Files in trees.

A path of names leads to at most one file where the names of a directory are distinct.  The files
that a build looks at are those with an accepted path.
-/

namespace FileTree

variable {allowed : FileName → Prop} {entries : List (FileName × FileTree)} {path : List FileName}
  {bytes bytes' : ByteArray}

/-- A file stands at the end of a path of names. -/
inductive FileAt : List (FileName × FileTree) → List FileName → ByteArray → Prop
  | entry {entries : List (FileName × FileTree)} {name : FileName} {bytes : ByteArray}
      (stored : (name, file bytes) ∈ entries) : FileAt entries [name] bytes
  | inside {entries below : List (FileName × FileTree)} {name : FileName} {path : List FileName}
      {bytes : ByteArray} (stored : (name, directory below) ∈ entries)
      (deeper : FileAt below path bytes) : FileAt entries (name :: path) bytes

/-- Names as a file system keeps them: in each directory they are distinct.  All of them are
allowed. -/
inductive NamedBy (allowed : FileName → Prop) : List (FileName × FileTree) → Prop
  | intro {entries : List (FileName × FileTree)} (distinct : (entries.map Prod.fst).Nodup)
      (names : ∀ entry ∈ entries, allowed entry.1)
      (below : ∀ name inner, (name, directory inner) ∈ entries → NamedBy allowed inner) :
      NamedBy allowed entries

namespace NamedBy

theorem tree_eq (named : NamedBy allowed entries) {name : FileName} {tree tree' : FileTree}
    (first : (name, tree) ∈ entries) (second : (name, tree') ∈ entries) : tree = tree' := by
  obtain ⟨distinct, _, _⟩ := named
  exact congrArg Prod.snd (List.inj_on_of_nodup_map distinct first second rfl)

theorem allowed_of_mem (named : NamedBy allowed entries) {name : FileName} {tree : FileTree}
    (stored : (name, tree) ∈ entries) : allowed name := by
  obtain ⟨_, names, _⟩ := named
  exact names _ stored

theorem inner (named : NamedBy allowed entries) {name : FileName}
    {inner : List (FileName × FileTree)} (stored : (name, directory inner) ∈ entries) :
    NamedBy allowed inner := by
  obtain ⟨_, _, below⟩ := named
  exact below _ _ stored

theorem mono {allowed' : FileName → Prop} (named : NamedBy allowed entries)
    (weaker : ∀ name, allowed name → allowed' name) : NamedBy allowed' entries := by
  induction named with
  | intro distinct names _ ih =>
      exact .intro distinct (fun entry stored => weaker _ (names entry stored)) ih

end NamedBy

theorem FileAt.ne_nil (found : FileAt entries path bytes) : path ≠ [] := by
  cases found <;> exact List.cons_ne_nil _ _

/-- A path of several names begins with a directory. -/
theorem FileAt.exists_directory {name : FileName} (found : FileAt entries (name :: path) bytes)
    (nonempty : path ≠ []) :
    ∃ inner, (name, directory inner) ∈ entries ∧ FileAt inner path bytes := by
  cases found with
  | entry _ => contradiction
  | inside stored deeper => exact ⟨_, stored, deeper⟩

theorem FileAt.allowed_of_mem (named : NamedBy allowed entries)
    (found : FileAt entries path bytes) : ∀ name ∈ path, allowed name := by
  induction found with
  | entry stored =>
      exact List.forall_mem_singleton.mpr (named.allowed_of_mem stored)
  | inside stored _ ih =>
      exact List.forall_mem_cons.mpr ⟨named.allowed_of_mem stored, ih (named.inner stored)⟩

theorem FileAt.bytes_eq (named : NamedBy allowed entries) (first : FileAt entries path bytes)
    (second : FileAt entries path bytes') : bytes = bytes' := by
  induction first with
  | entry stored =>
      cases second with
      | entry stored' => exact FileTree.file.inj (named.tree_eq stored stored')
      | inside stored' deeper => exact absurd rfl deeper.ne_nil
  | inside stored deeper ih =>
      cases second with
      | entry stored' => exact absurd rfl deeper.ne_nil
      | inside stored' deeper' =>
          obtain rfl := FileTree.directory.inj (named.tree_eq stored stored')
          exact ih (named.inner stored) deeper'

theorem not_fileAt_nil : ¬ FileAt [] path bytes := by
  intro found
  cases found <;> contradiction

theorem FileAt.mono {entries' : List (FileName × FileTree)} (found : FileAt entries path bytes)
    (grown : entries ⊆ entries') : FileAt entries' path bytes := by
  cases found with
  | entry stored => exact .entry (grown stored)
  | inside stored deeper => exact .inside (grown stored) deeper

theorem fileAt_cons (entry : FileName × FileTree) (entries : List (FileName × FileTree)) :
    FileAt (entry :: entries) path bytes ↔
      FileAt [entry] path bytes ∨ FileAt entries path bytes := by
  constructor
  · intro found
    cases found with
    | entry stored =>
        rcases List.mem_cons.mp stored with rfl | later
        · exact .inl (.entry List.mem_cons_self)
        · exact .inr (.entry later)
    | inside stored deeper =>
        rcases List.mem_cons.mp stored with rfl | later
        · exact .inl (.inside List.mem_cons_self deeper)
        · exact .inr (.inside later deeper)
  · rintro (found | found)
    · exact found.mono (List.cons_subset_cons _ (List.nil_subset _))
    · exact found.mono (List.subset_cons_self _ _)

theorem fileAt_file {name : FileName} :
    FileAt [(name, file bytes')] path bytes ↔ path = [name] ∧ bytes = bytes' := by
  constructor
  · intro found
    cases found with
    | entry stored =>
        simp only [List.mem_singleton, Prod.mk.injEq, file.injEq] at stored
        obtain ⟨rfl, rfl⟩ := stored
        exact ⟨rfl, rfl⟩
    | inside stored deeper => simp at stored
  · rintro ⟨rfl, rfl⟩
    exact .entry List.mem_cons_self

theorem fileAt_directory {name : FileName} :
    FileAt [(name, directory entries)] path bytes ↔
      ∃ rest, path = name :: rest ∧ FileAt entries rest bytes := by
  constructor
  · intro found
    cases found with
    | entry stored => simp at stored
    | inside stored deeper =>
        simp only [List.mem_singleton, Prod.mk.injEq, directory.injEq] at stored
        obtain ⟨rfl, rfl⟩ := stored
        exact ⟨_, rfl, deeper⟩
  · rintro ⟨rest, rfl, deeper⟩
    exact .inside List.mem_cons_self deeper

end FileTree

open FileTree (FileAt)

/-- No directory on the path is passed over, and the file at its end is a document. -/
def Options.Accepts (options : Options) (path : List FileName) : Prop :=
  (∀ directory ∈ path.dropLast, options.skips directory.shown = false) ∧
    ∀ name ∈ path.getLast?, options.isDocument name = true

variable {options : Options} {path : List FileName} {name : FileName}
  {entries : List (FileName × FileTree)} {source : Source}

theorem accepts_singleton : options.Accepts [name] ↔ options.isDocument name = true := by
  simp [Options.Accepts]

theorem accepts_cons (nonempty : path ≠ []) :
    options.Accepts (name :: path) ↔ options.skips name.shown = false ∧ options.Accepts path := by
  obtain ⟨next, others, rfl⟩ := List.exists_cons_of_ne_nil nonempty
  simp [Options.Accepts, and_assoc]

theorem mem_flatMap_sort {groups : List (FileName × List Source)} :
    source ∈ (groups.mergeSort byName).flatMap Prod.snd ↔ ∃ group ∈ groups, source ∈ group.2 := by
  rw [List.mem_flatMap]
  exact exists_congr fun group => and_congr_left fun _ => List.mem_mergeSort

mutual

/-- The sources of an entry are the files that are found behind it with an accepted path. -/
theorem mem_sourcesOf (options : Options) (above : List String) (name : FileName) (source : Source) :
    ∀ tree : FileTree, source ∈ sourcesOf options above name tree ↔
      ∃ path, FileAt [(name, tree)] path source.bytes ∧ options.Accepts path ∧
        source.path = above ++ path.map FileName.shown
  | .file bytes => by
      simp only [sourcesOf, FileTree.fileAt_file]
      constructor
      · intro member
        split at member
        · rename_i document
          obtain rfl := List.mem_singleton.mp member
          exact ⟨[name], ⟨rfl, rfl⟩, accepts_singleton.mpr document, rfl⟩
        · contradiction
      · rintro ⟨path, ⟨rfl, same⟩, accepted, placed⟩
        rw [List.map_singleton] at placed
        rw [if_pos (accepts_singleton.mp accepted), List.mem_singleton, ← placed, ← same]
  | .directory below => by
      have deeper := mem_sourcesByName options (above ++ [name.shown]) source below
      simp only [sourcesOf, FileTree.fileAt_directory]
      constructor
      · intro member
        split at member
        · contradiction
        · rename_i followed
          obtain ⟨rest, found, accepted, placed⟩ := deeper.mp (mem_flatMap_sort.mp member)
          refine ⟨name :: rest, ⟨rest, rfl, found⟩, ?_, by simpa using placed⟩
          exact (accepts_cons found.ne_nil).mpr ⟨by simpa using followed, accepted⟩
      · rintro ⟨_, ⟨rest, rfl, found⟩, accepted, placed⟩
        obtain ⟨followed, accepted⟩ := (accepts_cons found.ne_nil).mp accepted
        rw [if_neg (by simp [followed])]
        exact mem_flatMap_sort.mpr (deeper.mpr ⟨rest, found, accepted, by simpa using placed⟩)

theorem mem_sourcesByName (options : Options) (above : List String) (source : Source) :
    ∀ entries : List (FileName × FileTree),
      (∃ group ∈ sourcesByName options above entries, source ∈ group.2) ↔
        ∃ path, FileAt entries path source.bytes ∧ options.Accepts path ∧
          source.path = above ++ path.map FileName.shown
  | [] => by simp [sourcesByName, FileTree.not_fileAt_nil]
  | (name, tree) :: rest => by
      have here := mem_sourcesOf options above name source tree
      have later := mem_sourcesByName options above source rest
      simp only [sourcesByName, List.exists_mem_cons_iff, here, later,
        FileTree.fileAt_cons (name, tree) rest, or_and_right, exists_or]

end

end DocumentGraph.Document
