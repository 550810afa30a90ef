/-
PascalSurvey/Proofs/Discovery/MissingFile.lean

What a warning about a missing file points at.  A warning comes in with the reference that it is
about (`mem_warnings_foldl_add`), so there are two kinds of them.  An entry of the program's
`uses` clause is looked for where the warning says.  A source that the project file lists is
looked for from the directory of the project file, while its warning takes the path from the
directory of the program.  The two are one place wherever `locate` found both files
(`sameDirectory_of_locate`), and they can differ only if the program is the main source.

Main result: nothing is at the path of such a warning, except where the main source lies in
another directory than the project file (`discover_missingFile`).
-/
import PascalSurvey.Proofs.Discovery.MainSource
import PascalSurvey.Proofs.Discovery.Start
import PascalSurvey.Proofs.FileTree.SamePlace
import PascalSurvey.Proofs.ProjectFile.Sources

namespace PascalSurvey.Discovery

open Ascii PascalSurvey.Path FileTree

variable {tree : FileTree} {env : Environment} {c : Config} {path : Path}

/-! ### Files of one directory -/

/-- Two paths are the same up to the last component. -/
def SameDirectory (p q : Path) : Prop := (components p).dropLast = (components q).dropLast

theorem sameDirectory_of_mem_list (ht : tree.Named) {dir p q : Path} {entries : List Path}
    (h : tree.list dir = .ok entries) (hp : p ∈ entries) (hq : q ∈ entries) :
    SameDirectory p q := by
  obtain ⟨place, name, node, -, hname, rfl, -⟩ := exists_of_mem_list ht h hp
  obtain ⟨place', name', node', -, hname', rfl, -⟩ := exists_of_mem_list ht h hq
  rw [SameDirectory, dropLast_components_join dir (ht.entries _ hname name (by simp)),
    dropLast_components_join dir (ht.entries _ hname' name' (by simp))]

theorem sameDirectory_sibling? (ht : tree.Named) {p q : Path} {extension : Text}
    (hlength : 2 ≤ extension.length) (hslash : slash ∉ extension)
    (h : sibling? tree p extension = some q) : SameDirectory p q := by
  unfold sibling? at h
  split at h
  · next stem dir hstem hdir =>
    rw [SameDirectory, ← components_parent? hdir]
    dsimp only at h
    split at h
    · obtain rfl := Option.some.inj h
      exact (dropLast_components_join dir (isName_of_stemText? hstem hlength hslash)).symm
    · split at h
      · cases h
      · next entries hlist =>
        obtain ⟨place, name, node, -, hmem, rfl, -⟩ :=
          exists_of_mem_list ht hlist (List.mem_of_find?_eq_some h)
        exact (dropLast_components_join dir (ht.entries _ hmem name (by simp))).symm
  · cases h

theorem mem_of_mem_filesWith {entries : List Path} {extension : Text} {p : Path}
    (h : p ∈ filesWith tree entries extension) : p ∈ entries :=
  List.mem_of_mem_filter ((List.mergeSort_perm _ _).mem_iff.mp h)

/-- **A program and a project file that were found together lie in one directory.** -/
theorem sameDirectory_of_locate (ht : tree.Named) {program projectFile : Path}
    {extensions : List Text}
    (h : locate tree path extensions = .ok (.program (some program) (some projectFile))) :
    SameDirectory program projectFile := by
  have hprogram {p q : Path} (h : sibling? tree p programExtension = some q) : SameDirectory p q :=
    sameDirectory_sibling? ht (by decide) (by decide) h
  have hproject {p q : Path} (h : sibling? tree p projectFileExtension = some q) :
      SameDirectory p q :=
    sameDirectory_sibling? ht (by decide) (by decide) h
  unfold locate at h
  split at h
  · cases h
  split at h
  · -- the path is one of the two files, and the other is its sibling
    split at h
    · simp only [Except.ok.injEq, EntryPoint.program.injEq, Option.some.injEq] at h
      obtain ⟨hsibling, rfl⟩ := h
      exact (hprogram hsibling).symm
    · split at h
      · simp only [Except.ok.injEq, EntryPoint.program.injEq, Option.some.injEq] at h
        obtain ⟨rfl, hsibling⟩ := h
        exact hproject hsibling
      · cases h
  split at h
  · cases h
  · next entries hlist =>
    unfold locateIn at h
    dsimp only at h
    split at h
    · next projectFile' rest hfirst =>
      simp only [Except.ok.injEq, EntryPoint.program.injEq, Option.some.injEq] at h
      obtain ⟨hfound, rfl⟩ := h
      rcases Option.or_eq_some_iff.mp hfound with hsibling | ⟨-, hhead⟩
      · exact (hprogram hsibling).symm
      · -- both are entries of the directory
        have hmem : projectFile' ∈ filesWith tree entries projectFileExtension := by
          rw [hfirst]
          exact List.mem_cons_self
        exact sameDirectory_of_mem_list ht hlist
          (mem_of_mem_filesWith (List.mem_of_mem_head? hhead)) (mem_of_mem_filesWith hmem)
    · split at h
      · simp only [Except.ok.injEq, EntryPoint.program.injEq, Option.some.injEq] at h
        obtain ⟨rfl, hsibling⟩ := h
        exact hproject hsibling
      · split at h <;> cases h

/-! ### Warnings -/

/-- A warning is there already, or it comes in with a reference. -/
theorem mem_warnings_foldl_add {r : Resolution} {found : List (SourceUnit × Option Warning)}
    {w : Warning} (h : w ∈ (found.foldl Resolution.add r).warnings) :
    w ∈ r.warnings ∨ ∃ f ∈ found, f.2 = some w := by
  induction found generalizing r with
  | nil => exact .inl h
  | cons f rest ih =>
    rcases ih h with hstep | ⟨g, hg, hw⟩
    · unfold Resolution.add at hstep
      split at hstep
      · exact .inl hstep
      · rcases List.mem_append.mp hstep with hold | hnew
        · exact .inl hold
        · exact .inr ⟨f, List.mem_cons_self, Option.mem_toList.mp hnew⟩
    · exact .inr ⟨g, List.mem_cons_of_mem f hg, hw⟩

/-- An entry of the `uses` clause is looked for at the path of its warning. -/
theorem path_ofUses {extensions : List Text} {root : Path} {dirs : List Path}
    {entry : Outline.UsesEntry} {w : Warning}
    (h : (ofUses tree extensions root dirs entry).2 = some w) (hkind : w.kind = .missingFile) :
    ∃ p, w.path = some p ∧ tree.isFile p = false := by
  unfold ofUses at h
  dsimp only at h
  split at h
  · cases h
  · next hnone =>
    obtain ⟨hdeclared, -⟩ := Option.or_eq_none_iff.mp hnone
    obtain rfl := Option.some.inj h
    cases hin : entry.inPath.map (Path.join root) with
    | none =>
      rw [hin] at hkind
      cases hkind
    | some file =>
      rw [hin] at hdeclared
      refine ⟨file, rfl, ?_⟩
      simpa using hdeclared

/-- The warning about a source of the project file has its path as seen from the program. -/
theorem path_ofSource {root : Path} {source : ProjectFile.SourceFile} {w : Warning}
    (h : (ofSource tree root source).2 = some w) :
    source.resolvedPath.filter tree.isFile = none ∧ w.path = some (Path.join root source.path) := by
  unfold ofSource at h
  split at h
  · cases h
  · next hnone =>
    obtain rfl := Option.some.inj h
    exact ⟨hnone, rfl⟩

/-- **A warning about a missing file is about an entry of the program or a source of the project
file**, and it tells where it is with the program's directory in front. -/
theorem path_of_mem_last {s : Start} (hs : ∀ w ∈ s.warnings, w.isMissing = false) {w : Warning}
    (hw : w ∈ (s.last tree c).warnings) (hkind : w.kind = .missingFile) :
    (∃ p, w.path = some p ∧ tree.isFile p = false) ∨
      ∃ m, s.metadata = some m ∧ ∃ source ∈ m.sourceFiles,
        source.resolvedPath.filter tree.isFile = none ∧
          w.path = some (Path.join s.root source.path) := by
  rcases mem_warnings_foldl_add hw with hstart | ⟨found, hfound, hw⟩
  · have hmissing : w.isMissing = true := by
      rw [Warning.isMissing, hkind]
      rfl
    rw [hs w hstart] at hmissing
    cases hmissing
  · rcases List.mem_append.mp hfound with huses | hsource
    · obtain ⟨entry, -, rfl⟩ := List.mem_map.mp huses
      exact .inl (path_ofUses hw hkind)
    · obtain ⟨source, hmem, rfl⟩ := List.mem_map.mp hsource
      obtain ⟨hnone, hpath⟩ := path_ofSource hw
      cases hm : s.metadata with
      | none =>
        rw [hm] at hmem
        cases hmem
      | some m =>
        rw [hm] at hmem
        exact .inr ⟨m, rfl, source, hmem, hnone, hpath⟩

/-! ### Where discovery looks -/

theorem readProjectFile_ok {bds : Option Text} {file : Path} {m : ProjectFile.Metadata}
    (h : readProjectFile tree bds file = .ok m) :
    ∃ bytes, tree.read file = .ok bytes ∧
      ProjectFile.read tree { ProjectFile.Surroundings.ofFile file with bds } (Utf8.lossy bytes) =
        .ok m := by
  unfold readProjectFile at h
  split at h
  · cases h
  · next bytes hbytes =>
    split at h
    · next hread =>
      obtain rfl := Except.ok.inj h
      exact ⟨bytes, hbytes, hread⟩
    · cases h

/-- The root of a project is the directory of the program, or of the project file without one. -/
theorem root_of {program : Option Path} {file : Path} {m : ProjectFile.Metadata}
    (h : (metadataOf tree env (some file)).1 = some m) :
    (Start.of tree env program (some file)).root =
      rootOf (program.or (mainSource? tree file m)) (some file) := by
  simp [Start.root, Start.of, h]

/-- **The root is the directory of the project file**, unless there is no program but the main
source. -/
theorem samePlace_root (ht : tree.Named) {extensions : List Text} {program : Option Path}
    {file dir : Path} {m : ProjectFile.Metadata}
    (hstart : locate tree path extensions = .ok (.program program (some file)))
    (hm : (metadataOf tree env (some file)).1 = some m) (hdir : parent? file = some dir) :
    tree.SamePlace (Start.of tree env program (some file)).root dir ∨
      program = none ∧ ∃ main, NamesMain tree file m main ∧
        parent? main = some (Start.of tree env none (some file)).root := by
  cases program with
  | some program =>
    -- found together, the two files lie in one directory
    refine .inl (FileTree.SamePlace.of_components ?_)
    rw [root_of hm, components_parent? hdir, ← sameDirectory_of_locate ht hstart]
    exact components_getD_parent? program
  | none =>
    cases hmain : mainSource? tree file m with
    | none =>
      refine .inl (FileTree.SamePlace.of_components ?_)
      rw [root_of hm, hmain, components_parent? hdir]
      exact components_getD_parent? file
    | some main =>
      obtain ⟨-, -, -, -, -, hfile⟩ := mainSource?_eq_some_iff.mp hmain
      obtain ⟨root, hroot⟩ := exists_parent?_of_isFile hfile
      refine .inr ⟨rfl, main, mainSource?_eq_some_iff.mp hmain, ?_⟩
      rw [root_of hm, hmain, hroot]
      exact congrArg (some <| ·.getD []) hroot.symm

/-- The path of a warning about a source that the project file lists is taken from the directory of
the main source, and the source was looked for in another one. -/
inductive TakenFromMain (tree : FileTree) (env : Environment) (c : Config) (path : Path) :
    Path → Prop
  | mk {projectFile main dir root : Path} {m : ProjectFile.Metadata}
      {source : ProjectFile.SourceFile} :
      locate tree path c.extensions = .ok (.program none (some projectFile)) →
      readProjectFile tree (env.get? "BDS") projectFile = .ok m →
      NamesMain tree projectFile m main →
      parent? projectFile = some dir → parent? main = some root → ¬tree.SamePlace root dir →
      source ∈ m.sourceFiles → tree.isFile (Path.join dir source.path) = false →
      TakenFromMain tree env c path (Path.join root source.path)

/-- **Main.**  Every warning about a missing file has a path, and no file is there, except where
discovery starts at a project file without a program, the main source lies in another directory,
and the warning is about a source that the project file lists: then the path is that of the source
as seen from the main source, while the source is missing as seen from the project file. -/
theorem discover_missingFile {r : Resolution} (ht : tree.Named)
    (h : discover tree env c path = .ok r) {w : Warning} (hw : w ∈ r.warnings)
    (hkind : w.kind = .missingFile) :
    ∃ p, w.path = some p ∧ (tree.isFile p = false ∨ TakenFromMain tree env c path p) := by
  unfold discover at h
  cases hstart : locate tree path c.extensions with
  | error e =>
    rw [hstart] at h
    cases h
  | ok start =>
    rw [hstart] at h
    cases start with
    | folder root units =>
      obtain rfl := Except.ok.inj h
      cases hw
    | program program projectFile =>
      obtain rfl := Except.ok.inj h
      rcases path_of_mem_last (fun w => isMissing_start) hw hkind with
        ⟨p, hp, hfile⟩ | ⟨m, hm, source, hsource, hnone, hpath⟩
      · exact ⟨p, hp, .inl hfile⟩
      obtain ⟨file, rfl, hread⟩ := metadataOf_eq_some hm
      obtain ⟨bytes, hbytes, hmetadata⟩ := readProjectFile_ok hread
      obtain ⟨dir, hdir⟩ := exists_parent?_of_isFile (isFile_of_read hbytes)
      have hmissing : tree.isFile (Path.join dir source.path) = false := by
        rw [ProjectFile.resolvedPath_of_mem hmetadata hsource] at hnone
        simpa [ProjectFile.Surroundings.ofFile, hdir] using hnone
      refine ⟨_, hpath, ?_⟩
      by_cases hplace : tree.SamePlace (Start.of tree env program (some file)).root dir
      · exact .inl ((hplace.isFile_join source.path).trans hmissing)
      · obtain ⟨rfl, main, hmain, hroot⟩ := (samePlace_root ht hstart hm hdir).resolve_left hplace
        exact .inr (.mk hstart hread hmain hdir hroot hplace hsource hmissing)

/-- A program and its project file: a library unit, a unit that is nowhere and is used twice,
one that is not where it should be, and one that only the project file lists. -/
def ghosts : FileTree :=
  (FileTree.empty.addFile "App.dpr"
    (Text.ofString "program App; uses SysUtils, uGhost, uOld in 'old.pas', UGHOST; begin end.")).addFile
    "App.dproj" (Text.ofString
      "<Project><ItemGroup><DCCReference Include='uList.pas'/></ItemGroup></Project>")

theorem discover_ghostFiles :
    ghosts.Named ∧
      ∃ r, discover ghosts [] Config.default "App.dpr" = .ok r ∧
        ∃ w ∈ r.warnings, w.kind = .missingFile ∧ w.path = some (Text.ofString "uList.pas") ∧
          ∃ p, w.path = some p ∧
            (ghosts.isFile p = false ∨ TakenFromMain ghosts [] Config.default "App.dpr" p) := by
  have ht : ghosts.Named := (named_empty.addFile _ _).addFile _ _
  have hwarnings : (discover ghosts [] Config.default "App.dpr").toOption.map (fun r =>
      r.warnings.any fun w =>
        w.kind == .missingFile && w.path == some (Text.ofString "uList.pas")) = some true := by
    decide +kernel
  cases hr : discover ghosts [] Config.default "App.dpr" with
  | error e =>
    rw [hr] at hwarnings
    cases hwarnings
  | ok r =>
    rw [hr] at hwarnings
    obtain ⟨w, hw, hboth⟩ := List.any_eq_true.mp (Option.some.inj hwarnings)
    obtain ⟨hkind, hpath⟩ := Bool.and_eq_true_iff.mp hboth
    exact ⟨ht, r, rfl, w, hw, beq_iff_eq.mp hkind, beq_iff_eq.mp hpath,
      discover_missingFile ht hr hw (beq_iff_eq.mp hkind)⟩

/-- The program and a unit lie in `src`; the project file names the one there and lists the other
beside itself. -/
def sourcesBelow : FileTree :=
  ((FileTree.empty.addFile "App.dproj"
    (Text.ofString "<Project><PropertyGroup><MainSource>src\\App.dpr</MainSource></PropertyGroup>" ++
      Text.ofString "<ItemGroup><DCCReference Include='uA.pas'/></ItemGroup></Project>")).addFile
    "src/App.dpr" (Text.ofString "program App; begin end.")).addFile "src/uA.pas"
    (Text.ofString "unit uA; end.")

/-- The warning says that a file is missing, and points at a file that exists. -/
theorem discover_sourcesBelow :
    (discover sourcesBelow [] Config.default "App.dproj").toOption.map
        (·.warnings.map fun w => (w.kind, w.path)) =
      some [(.missingFile, some (Text.ofString "src/uA.pas"))] ∧
    sourcesBelow.isFile "src/uA.pas" = true ∧ sourcesBelow.isFile "uA.pas" = false := by
  refine ⟨?_, ?_, ?_⟩
  · decide +kernel
  · decide +kernel
  · decide +kernel

end PascalSurvey.Discovery
