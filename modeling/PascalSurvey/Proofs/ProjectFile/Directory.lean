/-
PascalSurvey/Proofs/ProjectFile/Directory.lean

What a project file says under two spellings of its directory.  Only two things in it depend on
the spelling: the variables for the directory, and the paths at which the listed files are looked
for.  A text without a variable for the directory is replaced in the same way under both
(`substitute_directory`).

Main result: under two spellings of one directory, a project file with no such variable in its
search paths and references has the same search paths, and it lists the same sources, of which the
same are found (`metadata_directory`).
-/
import PascalSurvey.Proofs.FileTree.SamePlace
import PascalSurvey.Proofs.ProjectFile.SearchPaths
import PascalSurvey.Proofs.ProjectFile.Sources

namespace PascalSurvey.ProjectFile

open Ascii FileTree
open Xml (Element)

/-! ### Variables -/

/-- The variables for the directory of the project file. -/
def directoryVariables : List Text := ["ProjectDir", "MSBuildProjectDirectory"]

/-- A text has a variable for the directory of the project file. -/
def NamesDirectory (t : Text) : Prop :=
  ∃ name ∈ variableNames t, ∃ k ∈ directoryVariables, Text.eqFold k name = true

instance (t : Text) : Decidable (NamesDirectory t) :=
  inferInstanceAs (Decidable (∃ name ∈ _, ∃ k ∈ _, _))

/-- Two surroundings differ at most in the directory. -/
structure Surroundings.SameButDirectory (s s' : Surroundings) : Prop where
  projectName : s.projectName = s'.projectName
  bds : s.bds = s'.bds

/-- The values of all other variables are the same. -/
theorem value?_knownVariables {s s' : Surroundings} (hs : s.SameButDirectory s')
    (platform active : Option Text) {name : Text}
    (hname : ∀ k ∈ directoryVariables, Text.eqFold k name = false) :
    value? (knownVariables platform active s) name =
      value? (knownVariables platform active s') name := by
  have hdir : Text.eqFold (Text.ofString "ProjectDir") name = false := hname _ (.head _)
  have hdir' : Text.eqFold (Text.ofString "MSBuildProjectDirectory") name = false :=
    hname _ (.tail _ (.head _))
  -- of the variables for the directory none has this name
  unfold value? knownVariables
  rw [hs.projectName, hs.bds]
  cases s.directory <;> cases s'.directory <;>
    simp only [List.find?_append, List.find?_cons, List.find?_nil, hdir, hdir', Option.or_none]

/-- **A text without a variable for the directory does not depend on the directory.** -/
theorem substitute_directory {s s' : Surroundings} (hs : s.SameButDirectory s')
    (platform active : Option Text) {t : Text} (ht : ¬NamesDirectory t) :
    substitute (knownVariables platform active s) t =
      substitute (knownVariables platform active s') t := by
  refine substitute_congr fun name hname => value?_knownVariables hs platform active fun k hk => ?_
  rw [← Bool.not_eq_true]
  exact fun hfold => ht ⟨name, hname, k, hk, hfold⟩

/-! ### Search paths and sources -/

/-- No search path that counts, and no reference, has a variable for the directory. -/
structure LeavesDirectory (tree : FileTree) (s : Surroundings) (root : Element) : Prop where
  searchItems : ∀ item ∈ (Readings.ofTree tree s root).searchItems, ¬NamesDirectory item
  references : ∀ reference ∈ references root, ∀ value, reference.attribute? "Include" = some value →
    ¬NamesDirectory value

instance (tree : FileTree) (s : Surroundings) (root : Element) :
    Decidable (LeavesDirectory tree s root) :=
  decidable_of_iff
    ((∀ item ∈ (Readings.ofTree tree s root).searchItems, ¬NamesDirectory item) ∧
      ∀ reference ∈ references root, ∀ value ∈ reference.attribute? "Include", ¬NamesDirectory value)
    ⟨fun h => ⟨h.1, h.2⟩, fun h => ⟨h.searchItems, h.references⟩⟩

/-- What discovery asks about a listed source: its name, and whether it is found. -/
def SourceFile.outcome (tree : FileTree) (source : SourceFile) : Text × Bool :=
  (source.unitName, source.resolvedPath.any tree.isFile)

section

variable {tree : FileTree} {s s' : Surroundings} (hs : s.SameButDirectory s') {dir dir' : Path}
  (hdir : s.directory = some dir) (hdir' : s'.directory = some dir') (hplace : tree.SamePlace dir dir')
include hdir hdir' hplace

/-- A listed source has one outcome under two spellings of the directory. -/
theorem outcome_source? {subst subst' : Text → Text} {reference : Element}
    (h : ∀ value, reference.attribute? "Include" = some value → subst value = subst' value) :
    (source? tree s subst reference).map (SourceFile.outcome tree) =
      (source? tree s' subst' reference).map (SourceFile.outcome tree) := by
  unfold source?
  cases hvalue : reference.attribute? "Include" with
  | none => rfl
  | some value =>
    rw [Option.bind_some, Option.bind_some, h value hvalue]
    dsimp only
    split
    · rfl
    · simp [SourceFile.outcome, hdir, hdir', hplace.isFile_join]

include hs

/-- **Main.**  Under two spellings of its directory a project file has the same main source.  If
no search path that counts and no reference has a variable for the directory, it has the same
search paths and lists the same sources, and of these the same are found. -/
theorem metadata_directory (root : Element) :
    let m := (Readings.ofTree tree s root).metadata s
    let m' := (Readings.ofTree tree s' root).metadata s'
    m'.mainSource = m.mainSource ∧
      (LeavesDirectory tree s root → m'.searchPaths = m.searchPaths ∧
        m'.sourceFiles.map (SourceFile.outcome tree) =
          m.sourceFiles.map (SourceFile.outcome tree)) := by
  have hsubst {t : Text} (ht : ¬NamesDirectory t) :
      (Readings.ofTree tree s root).subst s t = (Readings.ofTree tree s' root).subst s' t :=
    substitute_directory hs _ _ ht
  refine ⟨rfl, fun hleaves => ⟨?_, ?_⟩⟩
  · refine List.map_congr_left fun item hitem => (hsubst (hleaves.searchItems item hitem)).symm
  · show ((Readings.ofTree tree s' root).items _).sources.map _ =
      ((Readings.ofTree tree s root).items _).sources.map _
    rw [sources_items, sources_items, List.map_filterMap, List.map_filterMap]
    refine List.filterMap_congr fun reference hreference => ?_
    refine (outcome_source? hdir hdir' hplace fun value hvalue => ?_).symm
    exact hsubst (hleaves.references reference hreference value hvalue)

end

end PascalSurvey.ProjectFile
