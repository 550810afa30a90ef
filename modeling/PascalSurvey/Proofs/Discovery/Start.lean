/-
PascalSurvey/Proofs/Discovery/Start.lean

What discovery of a program starts from: the two files, the metadata of the one, what the text of
the other says, and the warnings about both.  All else is a run over the references
(`ofProgram_eq`), in which the root and the two files stay as they are (`files_ofProgram`).  So
two discoveries can be compared by what they start from.
-/
import PascalSurvey.Proofs.Discovery.References

namespace PascalSurvey.Discovery

/-- What discovery of a program starts from. -/
structure Start where
  program : Option Path
  projectFile : Option Path
  metadata : Option ProjectFile.Metadata
  facts : ProgramFacts
  warnings : List Warning

/-- The metadata of a project file, and the warning if there are none. -/
def metadataOf (tree : FileTree) (env : Environment) (projectFile : Option Path) :
    Option ProjectFile.Metadata × List Warning :=
  match projectFile.map (readProjectFile tree (env.get? "BDS")) with
  | some (.ok m) => (some m, [])
  | some (.error w) => (none, [w])
  | none => (none, [])

/-- What a program says, and the warning if it cannot be read. -/
def factsOf (tree : FileTree) (root : Path) (program : Option Path) :
    ProgramFacts × Option Warning :=
  match program with
  | some path => readProgram tree root path
  | none => (⟨none, [], false⟩, none)

/-- What discovery starts from where these two files were found. -/
def Start.of (tree : FileTree) (env : Environment) (program projectFile : Option Path) : Start :=
  let metadata := metadataOf tree env projectFile
  let program := program.or do mainSource? tree (← projectFile) (← metadata.1)
  let facts := factsOf tree (rootOf program projectFile) program
  { program, projectFile
    metadata := metadata.1
    facts := facts.1
    warnings := metadata.2 ++ facts.2.toList }

namespace Start

variable (s : Start)

def root : Path := rootOf s.program s.projectFile

/-- The project before the first unit. -/
def blank : Project :=
  let name := ((s.program.or s.projectFile).bind Path.stemText?).getD []
  let empty : Project :=
    { Project.empty s.root name with program := s.program, projectFile := s.projectFile }
  ((s.metadata.map (·.defines)).getD []).foldl Project.addDefine
    (((s.metadata.map (·.searchPaths)).getD []).foldl Project.addSearchPath empty)

/-- The project before the first reference. -/
def project : Project := s.facts.unit.toList.foldl Project.addUnit s.blank

/-- The references that discovery goes through. -/
def references (tree : FileTree) (c : Config) : List (SourceUnit × Option Warning) :=
  Discovery.references tree c s.root (searchDirectories s.root s.blank.searchPaths) s.facts.uses
    ((s.metadata.map (·.sourceFiles)).getD [])

/-- The resolution after the last reference. -/
def last (tree : FileTree) (c : Config) : Resolution :=
  (s.references tree c).foldl Resolution.add ⟨s.project, s.warnings⟩

end Start

/-- **Discovery of a program is a run over the references, from what it starts from.** -/
theorem ofProgram_eq (tree : FileTree) (env : Environment) (c : Config)
    (program projectFile : Option Path) :
    ofProgram tree env c program projectFile =
      let s := Start.of tree env program projectFile
      let last := s.last tree c
      { last with project := { last.project with
          units := last.project.units.map (attachForm tree)
          framework := .detect (s.metadata.bind (·.frameworkType)) s.facts.uses s.facts.isConsole
          metadata := s.metadata } } :=
  rfl

/-! ### What a project keeps

Search paths, defines and units are added one after another; the root and the two files stay. -/

/-- Two projects have one root and the same two files. -/
structure SameFiles (p q : Project) : Prop where
  root : p.root = q.root
  program : p.program = q.program
  projectFile : p.projectFile = q.projectFile

namespace SameFiles

variable {p q : Project}

theorem addSearchPath (h : SameFiles p q) (path : Text) : SameFiles (p.addSearchPath path) q := by
  unfold Project.addSearchPath
  dsimp only
  split
  · exact h
  · exact ⟨h.root, h.program, h.projectFile⟩

theorem addDefine (h : SameFiles p q) (define : Text) : SameFiles (p.addDefine define) q := by
  unfold Project.addDefine
  dsimp only
  split
  · exact h
  · exact ⟨h.root, h.program, h.projectFile⟩

theorem addUnit (h : SameFiles p q) (u : SourceUnit) : SameFiles (p.addUnit u) q := by
  unfold Project.addUnit
  split
  · exact h
  · exact ⟨h.root, h.program, h.projectFile⟩

theorem add {r : Resolution} (h : SameFiles r.project q) (found : SourceUnit × Option Warning) :
    SameFiles (r.add found).project q := by
  unfold Resolution.add
  split
  · exact h
  · exact h.addUnit found.1

theorem foldl {α : Type} {f : Project → α → Project} (l : List α) (h : SameFiles p q)
    (hf : ∀ p a, SameFiles p q → SameFiles (f p a) q) : SameFiles (l.foldl f p) q :=
  List.foldlRecOn (motive := fun p => SameFiles p q) l f h fun p hp a _ => hf p a hp

end SameFiles

theorem Start.sameFiles_last (s : Start) (tree : FileTree) (c : Config) :
    SameFiles (s.last tree c).project
      { Project.empty s.root [] with program := s.program, projectFile := s.projectFile } := by
  unfold Start.last
  refine List.foldlRecOn (motive := fun r : Resolution => SameFiles r.project _) _ _ ?_
    fun r hr found _ => hr.add found
  refine SameFiles.foldl _ ?_ fun p u hp => hp.addUnit u
  refine SameFiles.foldl _ ?_ fun p define hp => hp.addDefine define
  refine SameFiles.foldl _ ?_ fun p path hp => hp.addSearchPath path
  exact ⟨rfl, rfl, rfl⟩

/-- Discovery of a program keeps the root and the two files that it starts from. -/
theorem files_ofProgram (tree : FileTree) (env : Environment) (c : Config)
    (program projectFile : Option Path) :
    let r := ofProgram tree env c program projectFile
    let s := Start.of tree env program projectFile
    r.project.root = s.root ∧ r.project.program = s.program ∧ r.project.projectFile = projectFile := by
  obtain ⟨hroot, hprogram, hfile⟩ :=
    (Start.of tree env program projectFile).sameFiles_last tree c
  exact ⟨hroot, hprogram, hfile⟩

/-- Before the first reference the only unit is that of the program. -/
theorem Start.units_project (s : Start) : s.project.units = s.facts.unit.toList := by
  have hblank : s.blank.units = [] := (foldl_addDefine _ _).1.trans (foldl_addSearchPath _ _).1
  unfold Start.project
  cases s.facts.unit with
  | none => exact hblank
  | some u => simp [Project.units_addUnit, Project.hasUnit, Project.findUnit?, hblank]

/-! ### Search paths

Which search paths a project keeps depends on those of the project file alone. -/

theorem searchPaths_addSearchPath {p q : Project} (h : p.searchPaths = q.searchPaths) (path : Text) :
    (p.addSearchPath path).searchPaths = (q.addSearchPath path).searchPaths := by
  unfold Project.addSearchPath
  rw [h]
  dsimp only
  split
  · exact h
  · rfl

theorem searchPaths_foldl_addSearchPath (paths : List Text) {p q : Project}
    (h : p.searchPaths = q.searchPaths) :
    (paths.foldl Project.addSearchPath p).searchPaths =
      (paths.foldl Project.addSearchPath q).searchPaths := by
  induction paths generalizing p q with
  | nil => exact h
  | cons path rest ih => exact ih (searchPaths_addSearchPath h path)

theorem searchPaths_foldl_addDefine (p : Project) (defines : List Text) :
    (defines.foldl Project.addDefine p).searchPaths = p.searchPaths := by
  refine List.foldlRecOn (motive := fun q : Project => q.searchPaths = p.searchPaths) defines _ rfl ?_
  intro q hq define _
  rw [Project.addDefine, ← hq]
  split <;> rfl

theorem Start.searchPaths_blank {s s' : Start}
    (h : s.metadata.map (·.searchPaths) = s'.metadata.map (·.searchPaths)) :
    s.blank.searchPaths = s'.blank.searchPaths := by
  unfold Start.blank
  rw [searchPaths_foldl_addDefine, searchPaths_foldl_addDefine, h]
  exact searchPaths_foldl_addSearchPath _ rfl

/-! ### What is known of the two files -/

variable {tree : FileTree} {env : Environment}

theorem metadataOf_eq_some {projectFile : Option Path} {m : ProjectFile.Metadata}
    (h : (metadataOf tree env projectFile).1 = some m) :
    ∃ file, projectFile = some file ∧ readProjectFile tree (env.get? "BDS") file = .ok m := by
  cases projectFile with
  | none => cases h
  | some file =>
    refine ⟨file, rfl, ?_⟩
    unfold metadataOf at h
    rw [Option.map_some] at h
    cases hread : readProjectFile tree (env.get? "BDS") file with
    | error w =>
      rw [hread] at h
      cases h
    | ok m' =>
      rw [hread] at h
      rw [← Option.some.inj h]

/-- The warnings about the two files themselves are about no missing unit. -/
theorem isMissing_start {program projectFile : Option Path} {w : Warning}
    (h : w ∈ (Start.of tree env program projectFile).warnings) : w.isMissing = false := by
  rcases List.mem_append.mp h with h | h
  · exact (projectFile_spec (Prod.eta (metadataOf tree env projectFile)).symm).1 w h
  · exact (program_spec (Prod.eta (factsOf tree _ _)).symm).2.1 w (Option.mem_toList.mp h)

end PascalSurvey.Discovery
