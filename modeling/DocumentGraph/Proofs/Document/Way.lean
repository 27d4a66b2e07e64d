import DocumentGraph.Proofs.Document.FileName
import DocumentGraph.Proofs.Document.Tree

namespace DocumentGraph.Document

open FileTree (FileAt NamedBy walk)

/-! The way from one directory to another.

It leads up out of the directories that the second path does not begin with, and then down.  Walking
along it, a file system comes to the files of the second directory.
-/

variable {entries : List (FileName × FileTree)} {bytes bytes' : ByteArray}
  {here there common up down path : List FileName} {last file : FileName}

/-- A name that a file system gives: not empty, not one of the two that lead up or nowhere, and
without a slash. -/
def IsFileName (name : FileName) : Prop :=
  name.shown ∉ ["", ".", ".."] ∧ '/' ∉ name.shown.toList

instance : DecidablePred IsFileName :=
  fun _ => inferInstanceAs (Decidable (_ ∧ _))

/-- Two paths without the names that both begin with. -/
def apart : List FileName → List FileName → List FileName × List FileName
  | here :: up, there :: down => if here = there then apart up down else (here :: up, there :: down)
  | up, down => (up, down)

/-- The way up out of some directories. -/
def climb (up : List FileName) : List FileName :=
  if up = [] then [.ofText "."] else up.map fun _ => .ofText ".."

/-- The way from one directory to another. -/
def wayTo (here there : List FileName) : List FileName :=
  climb (apart here there).1 ++ (apart here there).2

theorem exists_common (here there : List FileName) :
    ∃ common, here = common ++ (apart here there).1 ∧ there = common ++ (apart here there).2 ∧
      ∀ name ∈ (apart here there).1.head?, name ∉ (apart here there).2.head? := by
  fun_induction apart here there with
  | case1 up name down ih =>
      obtain ⟨common, left, right, differ⟩ := ih
      exact ⟨name :: common, congrArg (name :: ·) left, congrArg (name :: ·) right, differ⟩
  | case2 here up there down different =>
      exact ⟨[], rfl, rfl, by simpa using Ne.symm different⟩
  | case3 up down ended =>
      refine ⟨[], rfl, rfl, ?_⟩
      cases up with
      | nil => simp
      | cons here up =>
          cases down with
          | nil => simp
          | cons there down => exact absurd rfl (ended here up there down rfl)

/-- Down from a directory there is no way up. -/
theorem wayTo_append (here down : List FileName) :
    wayTo here (here ++ down) = .ofText "." :: down := by
  have below : apart here (here ++ down) = ([], down) := by
    induction here with
    | nil => cases down <;> rfl
    | cons name here ih => rw [List.cons_append, apart, if_pos rfl, ih]
  rw [wayTo, below]
  rfl

/-- To any other directory the way leads up first. -/
theorem exists_wayTo (beside : ¬ here <+: there) :
    ∃ common up down, here = common ++ up ∧ there = common ++ down ∧ up ≠ [] ∧
      (∀ name ∈ up.head?, name ∉ down.head?) ∧
      wayTo here there = up.map (fun _ => .ofText "..") ++ down := by
  obtain ⟨common, left, right, differ⟩ := exists_common here there
  have climbs : (apart here there).1 ≠ [] := by
    intro level
    rw [level, List.append_nil] at left
    exact beside ⟨_, (congrArg (· ++ (apart here there).2) left).trans right.symm⟩
  exact ⟨common, _, _, left, right, climbs, differ, by rw [wayTo, climb, if_neg climbs]⟩

theorem lookup_of_mem {allowed : FileName → Prop} (named : NamedBy allowed entries)
    {name : FileName} {tree : FileTree} (stored : (name, tree) ∈ entries) : entries.lookup name = some tree := by
  cases found : entries.lookup name with
  | none => exact absurd stored (by simpa using List.lookup_eq_none_iff.mp found (name, tree))
  | some other =>
      obtain ⟨front, behind, rfl, _⟩ := List.lookup_eq_some_iff.mp found
      rw [named.tree_eq stored (List.mem_append_right front List.mem_cons_self)]

theorem walk_name (named : NamedBy IsFileName entries) {name : FileName} {tree : FileTree}
    (stored : (name, tree) ∈ entries) (above : List FileTree) (rest : List FileName) :
    walk above (.directory entries) (name :: rest) =
      walk (.directory entries :: above) tree rest := by
  have plain : ¬ (name = .ofText "" ∨ name = .ofText "." ∨ name = .ofText "..") := by
    intro special
    refine (named.allowed_of_mem stored).1 ?_
    rcases special with rfl | rfl | rfl <;> simp
  simp only [not_or] at plain
  obtain ⟨filled, noDot, noDots⟩ := plain
  simp [walk, FileTree.isDirectory, FileTree.entries, filled, noDot, noDots,
    lookup_of_mem named stored]

theorem walk_file (named : NamedBy IsFileName entries) (found : FileAt entries path bytes)
    (above : List FileTree) : walk above (.directory entries) path = .ok (.file bytes) := by
  induction found generalizing above with
  | entry stored => rw [walk_name named stored, walk]
  | inside stored _ ih => rw [walk_name named stored, ih (named.inner stored)]

/-- Down into directories and up again. -/
theorem walk_back (named : NamedBy IsFileName entries) (found : FileAt entries (up ++ [last]) bytes)
    (above : List FileTree) (rest : List FileName) :
    walk above (.directory entries) (up ++ (up.map (fun _ => .ofText "..") ++ rest)) =
      walk above (.directory entries) rest := by
  induction up generalizing entries above rest with
  | nil => rfl
  | cons name up ih =>
      obtain ⟨inner, stored, deeper⟩ := found.exists_directory (by simp)
      have climbed : (name :: up) ++ ((name :: up).map (fun _ => FileName.ofText "..") ++ rest) =
          name :: (up ++ (up.map (fun _ => .ofText "..") ++ (.ofText ".." :: rest))) := by
        have turned : (name :: up).map (fun _ => FileName.ofText "..") =
            up.map (fun _ => .ofText "..") ++ [.ofText ".."] := by
          rw [List.map_const', List.map_const', List.length_cons, List.replicate_succ']
        rw [turned, List.append_assoc]
        rfl
      rw [climbed, walk_name named stored, ih (named.inner stored) deeper]
      simp [walk, FileTree.isDirectory]

theorem walk_climb (named : NamedBy IsFileName entries)
    (found : FileAt entries (up ++ [last]) bytes) (above : List FileTree) (rest : List FileName) :
    walk above (.directory entries) (up ++ (climb up ++ rest)) =
      walk above (.directory entries) rest := by
  cases up with
  | nil => simp [climb, walk, FileTree.isDirectory]
  | cons name up => exact walk_back named found above rest

theorem walk_across (named : NamedBy IsFileName entries)
    (found : FileAt entries (common ++ (up ++ [last])) bytes)
    (found' : FileAt entries (common ++ (down ++ [file])) bytes') (above : List FileTree) :
    walk above (.directory entries) (common ++ (up ++ (climb up ++ (down ++ [file])))) =
      .ok (.file bytes') := by
  induction common generalizing entries above with
  | nil => exact (walk_climb named found above _).trans (walk_file named found' above)
  | cons name common ih =>
      obtain ⟨inner, stored, deeper⟩ := found.exists_directory (by simp)
      obtain ⟨inner', stored', deeper'⟩ := found'.exists_directory (by simp)
      obtain rfl := FileTree.directory.inj (named.tree_eq stored stored')
      exact (walk_name named stored above _).trans (ih (named.inner stored) deeper deeper' _)

/-- From the directory of one file the way leads to the other file. -/
theorem walk_wayTo (named : NamedBy IsFileName entries)
    (found : FileAt entries (here ++ [last]) bytes)
    (found' : FileAt entries (there ++ [file]) bytes') :
    walk [] (.directory entries) (here ++ (wayTo here there ++ [file])) = .ok (.file bytes') := by
  obtain ⟨common, left, right, _⟩ := exists_common here there
  rw [left, List.append_assoc] at found
  rw [right, List.append_assoc] at found'
  have across := walk_across named found found' []
  rwa [← List.append_assoc common, ← left, ← List.append_assoc (climb _)] at across

end DocumentGraph.Document
