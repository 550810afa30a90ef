/-
PascalSurvey/Proofs/Discovery/References.lean

What becomes of the references of a program.  Discovery turns each reference, an entry of the
program's `uses` clause or a source that the project file lists, into a unit, and answers for
it: the unit has a file, or a warning names it (`Answered`).  A reference whose name is there
already adds neither a unit nor a warning.  One step of discovery therefore keeps the units
without a file and the warnings about missing units in step (`Resolution.Accounted.add`), and
so does the whole run.

Main result: for every entry point that is a program, discovery finds a project in which all
names differ, every reference has a unit, and the units without a file are, one to one and in
order, those that the warnings name (`discover_accounts`).
-/
import Mathlib.Data.List.Forall2
import PascalSurvey.Discovery.Basic
import PascalSurvey.Proofs.Project.Units

namespace PascalSurvey

/-! ### Warnings about missing units -/

namespace Warning

/-- Whether a warning says that a unit was not found. -/
def isMissing (w : Warning) : Bool := w.kind == .unresolvedUnit || w.kind == .missingFile

/-- The message of a warning begins with the name of a unit. -/
def Names (w : Warning) (name : Text) : Prop :=
  Text.ofString "Unit '" ++ name ++ Text.ofString "'" <+: w.message

theorem names_of_message {w : Warning} {name : Text} (rest : Text)
    (h : w.message = Text.ofString "Unit '" ++ name ++ rest)
    (hrest : Text.ofString "'" <+: rest) : w.Names name := by
  obtain ⟨r, rfl⟩ := hrest
  exact ⟨r, by rw [h, List.append_assoc]⟩

end Warning

namespace Discovery

/-! ### Answers to references -/

/-- A reference is answered for: its unit has a file, or a warning names it. -/
inductive Answered : SourceUnit × Option Warning → Prop
  | found {u : SourceUnit} : u.hasFile = true → Answered (u, none)
  | missing {u : SourceUnit} {w : Warning} : u.hasFile = false → w.isMissing = true →
      w.Names u.name → Answered (u, some w)

theorem answered_ofUses (tree : FileTree) (extensions : List Text) (root : Path)
    (dirs : List Path) (entry : Outline.UsesEntry) :
    Answered (ofUses tree extensions root dirs entry) := by
  unfold ofUses
  dsimp only
  split
  · exact .found rfl
  · rcases entry.inPath.map (Path.join root) with - | file
    · refine .missing rfl rfl (Warning.names_of_message _ rfl ?_)
      decide +kernel
    · refine .missing rfl rfl (Warning.names_of_message _ rfl ?_)
      decide +kernel

theorem answered_ofSource (tree : FileTree) (root : Path) (source : ProjectFile.SourceFile) :
    Answered (ofSource tree root source) := by
  unfold ofSource
  split
  · exact .found rfl
  · refine .missing rfl rfl (Warning.names_of_message _ rfl ?_)
    decide +kernel

theorem name_ofUses (tree : FileTree) (extensions : List Text) (root : Path)
    (dirs : List Path) (entry : Outline.UsesEntry) :
    (ofUses tree extensions root dirs entry).1.name = entry.name := by
  unfold ofUses
  dsimp only
  split <;> rfl

theorem name_ofSource (tree : FileTree) (root : Path) (source : ProjectFile.SourceFile) :
    (ofSource tree root source).1.name = source.unitName := by
  unfold ofSource
  split <;> rfl

/-! ### One step -/

/-- All names differ, and the units without a file are, one to one and in order, those that
the warnings about missing units name. -/
structure Resolution.Accounted (r : Resolution) : Prop where
  namesDiffer : NamesDiffer r.project.units
  missing : List.Forall₂ (fun (u : SourceUnit) w => w.Names u.name)
    (r.project.units.filter (!·.hasFile)) (r.warnings.filter Warning.isMissing)

/-- **A step keeps the account.** -/
theorem Resolution.Accounted.add {r : Resolution} {found : SourceUnit × Option Warning}
    (h : r.Accounted) (hfound : Answered found) : (r.add found).Accounted := by
  unfold Resolution.add
  split
  · exact h
  · next hnew =>
    refine ⟨h.namesDiffer.addUnit found.1, ?_⟩
    have hunits : (r.project.addUnit found.1).units = r.project.units ++ [found.1] := by
      rw [Project.units_addUnit, if_neg hnew]
    simp only [hunits, List.filter_append]
    refine List.rel_append h.missing ?_
    cases hfound with
    | found hfile => simp [hfile]
    | missing hfile hkind hname => simp [hfile, hkind, hname]

/-- After a step there is a unit of the name that was referred to. -/
theorem Resolution.hasUnit_add (r : Resolution) (found : SourceUnit × Option Warning) :
    (r.add found).project.hasUnit found.1.name = true := by
  unfold Resolution.add
  split
  · assumption
  · exact Project.hasUnit_addUnit r.project found.1

theorem Resolution.hasUnit_add_of_hasUnit {r : Resolution} {name : Text}
    (found : SourceUnit × Option Warning) (h : r.project.hasUnit name = true) :
    (r.add found).project.hasUnit name = true := by
  unfold Resolution.add
  split
  · exact h
  · exact Project.hasUnit_addUnit_of_hasUnit found.1 h

/-! ### All steps -/

theorem Resolution.Accounted.foldl_add {r : Resolution}
    {found : List (SourceUnit × Option Warning)} (h : r.Accounted)
    (hfound : ∀ f ∈ found, Answered f) : (found.foldl Resolution.add r).Accounted := by
  induction found generalizing r with
  | nil => exact h
  | cons f rest ih =>
    exact ih (h.add (hfound f List.mem_cons_self)) fun g hg => hfound g (List.mem_cons_of_mem _ hg)

/-- A name stays, and every name that is referred to comes in. -/
theorem Resolution.hasUnit_foldl_add {r : Resolution} {name : Text}
    {found : List (SourceUnit × Option Warning)}
    (h : r.project.hasUnit name = true ∨ ∃ f ∈ found, f.1.name = name) :
    (found.foldl Resolution.add r).project.hasUnit name = true := by
  induction found generalizing r with
  | nil => simpa using h
  | cons f rest ih =>
    rw [List.foldl_cons]
    apply ih
    rcases h with h | ⟨g, hg, hname⟩
    · exact .inl (Resolution.hasUnit_add_of_hasUnit f h)
    · rcases List.mem_cons.mp hg with rfl | hg
      · exact .inl (hname ▸ Resolution.hasUnit_add r g)
      · exact .inr ⟨g, hg, hname⟩

/-! ### Before the first step -/

/-- The references of a program and its project file, each with the unit for it. -/
def references (tree : FileTree) (c : Config) (root : Path) (dirs : List Path)
    (uses : List Outline.UsesEntry) (sources : List ProjectFile.SourceFile) :
    List (SourceUnit × Option Warning) :=
  (uses.filter fun entry => !isForeign c.scan.extraSystemPrefixes entry).map
      (ofUses tree c.extensions root dirs) ++
    sources.map (ofSource tree root)

theorem answered_of_mem_references {tree : FileTree} {c : Config} {root : Path}
    {dirs : List Path} {uses : List Outline.UsesEntry} {sources : List ProjectFile.SourceFile}
    {f : SourceUnit × Option Warning} (h : f ∈ references tree c root dirs uses sources) :
    Answered f := by
  rcases List.mem_append.mp h with h | h
  · obtain ⟨entry, -, rfl⟩ := List.mem_map.mp h
    exact answered_ofUses tree c.extensions root dirs entry
  · obtain ⟨source, -, rfl⟩ := List.mem_map.mp h
    exact answered_ofSource tree root source

/-- Search paths touch neither the units nor the program. -/
theorem foldl_addSearchPath (p : Project) (paths : List Text) :
    (paths.foldl Project.addSearchPath p).units = p.units ∧
      (paths.foldl Project.addSearchPath p).program = p.program := by
  refine List.foldlRecOn (motive := fun q : Project => q.units = p.units ∧ q.program = p.program)
    paths _ ⟨rfl, rfl⟩ ?_
  intro q hq path _
  rw [Project.addSearchPath, ← hq.1, ← hq.2]
  split <;> exact ⟨rfl, rfl⟩

/-- Defines touch neither the units nor the program. -/
theorem foldl_addDefine (p : Project) (defines : List Text) :
    (defines.foldl Project.addDefine p).units = p.units ∧
      (defines.foldl Project.addDefine p).program = p.program := by
  refine List.foldlRecOn (motive := fun q : Project => q.units = p.units ∧ q.program = p.program)
    defines _ ⟨rfl, rfl⟩ ?_
  intro q hq define _
  rw [Project.addDefine, ← hq.1, ← hq.2]
  split <;> exact ⟨rfl, rfl⟩

theorem program_addUnit (p : Project) (u : SourceUnit) : (p.addUnit u).program = p.program := by
  rw [Project.addUnit]
  split <;> rfl

theorem program_foldl_add (r : Resolution) (found : List (SourceUnit × Option Warning)) :
    (found.foldl Resolution.add r).project.program = r.project.program := by
  refine List.foldlRecOn
    (motive := fun q : Resolution => q.project.program = r.project.program) found _ rfl ?_
  intro q hq f _
  rw [Resolution.add, ← hq]
  split
  · rfl
  · exact program_addUnit q.project f.1

/-- The program of a project is chosen at the start: search paths, defines, the unit of the
program and the references leave it as it is. -/
theorem program_last (start : Project) (searchPaths defines : List Text)
    (unit : Option SourceUnit) (ws : List Warning) (found : List (SourceUnit × Option Warning)) :
    (found.foldl Resolution.add ⟨unit.toList.foldl Project.addUnit (defines.foldl Project.addDefine
      (searchPaths.foldl Project.addSearchPath start)), ws⟩).project.program = start.program := by
  have hunit (q : Project) : (unit.toList.foldl Project.addUnit q).program = q.program :=
    List.foldlRecOn (motive := fun p : Project => p.program = q.program) _ _ rfl
      fun p hp u _ => (program_addUnit p u).trans hp
  rw [program_foldl_add, hunit, (foldl_addDefine _ defines).2, (foldl_addSearchPath _ searchPaths).2]

/-- A project file that cannot be read is no missing unit. -/
theorem isMissing_readProjectFile {tree : FileTree} {bds : Option Text} {path : Path}
    {w : Warning} (h : readProjectFile tree bds path = .error w) : w.isMissing = false := by
  unfold readProjectFile at h
  split at h
  · cases h
    rfl
  · split at h
    · cases h
    · cases h
      rfl

/-- What is known before the first reference: the unit of the program, which has a file, and
warnings about the two files themselves. -/
theorem accounted_start {p : Project} {ws : List Warning} (unit : Option SourceUnit)
    (hunits : p.units = []) (hunit : ∀ u ∈ unit, u.hasFile = true)
    (hws : ∀ w ∈ ws, w.isMissing = false) :
    Resolution.Accounted ⟨unit.toList.foldl Project.addUnit p, ws⟩ := by
  have hwarnings : ws.filter Warning.isMissing = [] := by
    rw [List.filter_eq_nil_iff]
    intro w hw
    rw [hws w hw]
    exact Bool.false_ne_true
  have hdiffer : NamesDiffer p.units := hunits ▸ List.Pairwise.nil
  refine ⟨hdiffer.foldl_addUnit id unit.toList, ?_⟩
  rw [hwarnings]
  cases unit with
  | none => simp [hunits]
  | some u => simp [Project.units_addUnit, Project.hasUnit, Project.findUnit?, hunits, hunit u rfl]

/-- What is known of a project file: its metadata if it can be read, or a warning. -/
theorem projectFile_spec {tree : FileTree} {bds : Option Text} {projectFile : Option Path}
    {metadata : Option ProjectFile.Metadata} {ws : List Warning}
    (h : (match projectFile.map (readProjectFile tree bds) with
      | some (.ok m) => (some m, [])
      | some (.error w) => (none, [w])
      | none => (none, [])) = (metadata, ws)) :
    (∀ w ∈ ws, w.isMissing = false) ∧ ∀ path, projectFile = some path →
      ∀ m, readProjectFile tree bds path = .ok m → metadata = some m := by
  cases projectFile with
  | none =>
    obtain ⟨-, rfl⟩ := Prod.mk.inj h
    simp
  | some path =>
    rw [Option.map_some] at h
    rcases hread : readProjectFile tree bds path with w | m
    · rw [hread] at h
      obtain ⟨-, rfl⟩ := Prod.mk.inj h
      simp [hread, isMissing_readProjectFile hread]
    · rw [hread] at h
      obtain ⟨rfl, rfl⟩ := Prod.mk.inj h
      simp [hread]

/-- What is known of a program: its unit and its `uses` entries if it can be read, or a
warning. -/
theorem program_spec {tree : FileTree} {root : Path} {program : Option Path}
    {facts : ProgramFacts} {warning : Option Warning}
    (h : (match program with
      | some path => readProgram tree root path
      | none => (⟨none, [], false⟩, none)) = (facts, warning)) :
    (∀ u ∈ facts.unit, u.hasFile = true) ∧ (∀ w ∈ warning, w.isMissing = false) ∧
      ∀ path, program = some path → ∀ bytes, tree.read path = .ok bytes →
        facts.uses = Program.uses (Utf8.lossy bytes) := by
  cases program with
  | none =>
    obtain ⟨rfl, rfl⟩ := Prod.mk.inj h
    simp
  | some path =>
    dsimp only [readProgram] at h
    split at h
    · next e he =>
      obtain ⟨rfl, rfl⟩ := Prod.mk.inj h
      simp [he, Warning.about, Warning.isMissing]
    · next bytes hbytes =>
      obtain ⟨rfl, rfl⟩ := Prod.mk.inj h
      simp [hbytes, SourceUnit.withFile, SourceUnit.hasFile]

/-! ### The run -/

theorem name_attachForm (tree : FileTree) (u : SourceUnit) : (attachForm tree u).name = u.name := by
  unfold attachForm
  split <;> rfl

theorem hasFile_attachForm (tree : FileTree) (u : SourceUnit) :
    (attachForm tree u).hasFile = u.hasFile := by
  unfold attachForm
  split <;> rfl

/-- The resolution `r` comes from `start` by adding references one after another, and at last
the form files. -/
structure Adds (tree : FileTree) (c : Config) (uses : List Outline.UsesEntry)
    (sources : List ProjectFile.SourceFile) (start r : Resolution) : Prop where
  accounted : start.Accounted
  steps : ∃ root dirs, let last := (references tree c root dirs uses sources).foldl .add start
    r.project.units = last.project.units.map (attachForm tree) ∧ r.warnings = last.warnings

/-- **Discovery of a program is such a run**, over the entries of the program and the sources
of the project file, as far as these can be read. -/
theorem adds_ofProgram (tree : FileTree) (env : Environment) (c : Config)
    (program projectFile : Option Path) :
    ∃ start uses sources, Adds tree c uses sources start (ofProgram tree env c program projectFile) ∧
      (∀ path bytes, (ofProgram tree env c program projectFile).project.program = some path →
        tree.read path = .ok bytes → uses = Program.uses (Utf8.lossy bytes)) ∧
      ∀ path m, projectFile = some path → readProjectFile tree (env.get? "BDS") path = .ok m →
        sources = m.sourceFiles := by
  unfold ofProgram
  extract_lets reading
  split
  next metadata fileWarnings hmetadata =>
  extract_lets path? root name blank start₀ start₁ start₂ dirs
  split
  next facts programWarning hfacts =>
  extract_lets start₃ listed found last
  have hunits : start₂.units = [] :=
    (foldl_addDefine start₁ _).1.trans (foldl_addSearchPath start₀ _).1
  have hprogram : last.project.program = path? := program_last start₀ _ _ facts.unit _ found
  obtain ⟨hfile, hmetadata⟩ := projectFile_spec hmetadata
  obtain ⟨hunit, hwarning, huses⟩ := program_spec hfacts
  refine ⟨⟨start₃, fileWarnings ++ programWarning.toList⟩, facts.uses,
    (metadata.map (·.sourceFiles)).getD [], ⟨?_, root, dirs, rfl, rfl⟩, ?_, ?_⟩
  · refine accounted_start facts.unit hunits hunit ?_
    intro w hw
    rcases List.mem_append.mp hw with hw | hw
    · exact hfile w hw
    · exact hwarning w (Option.mem_toList.mp hw)
  · intro path bytes hpath h
    exact huses path (hprogram.symm.trans hpath) bytes h
  · intro path m hpath h
    rw [hmetadata path hpath m h]
    rfl

/-! ### The account of a discovery -/

theorem Adds.hasUnit {tree : FileTree} {c : Config} {uses : List Outline.UsesEntry}
    {sources : List ProjectFile.SourceFile} {start r : Resolution} {name : Text}
    (h : Adds tree c uses sources start r)
    (hname : ∀ root dirs, ∃ f ∈ references tree c root dirs uses sources, f.1.name = name) :
    r.project.hasUnit name = true := by
  obtain ⟨root, dirs, hunits, -⟩ := h.steps
  rw [Project.hasUnit_congr (q := ((references tree c root dirs uses sources).foldl .add
    start).project) (by simp [hunits, Function.comp_def, name_attachForm])]
  exact Resolution.hasUnit_foldl_add (.inr (hname root dirs))

theorem Adds.accounted_end {tree : FileTree} {c : Config} {uses : List Outline.UsesEntry}
    {sources : List ProjectFile.SourceFile} {start r : Resolution}
    (h : Adds tree c uses sources start r) : r.Accounted := by
  obtain ⟨root, dirs, hunits, hwarnings⟩ := h.steps
  have hanswered : ∀ f ∈ references tree c root dirs uses sources, Answered f :=
    fun f hf => answered_of_mem_references hf
  obtain ⟨hdiffer, hmissing⟩ := h.accounted.foldl_add hanswered
  constructor
  · exact hdiffer.congr (by simp [hunits, Function.comp_def, name_attachForm])
  · rw [hunits, hwarnings, List.filter_map, List.forall₂_map_left_iff]
    simpa [Function.comp_def, name_attachForm, hasFile_attachForm] using hmissing

/-- **Main.**  Where a survey starts at a program, discovery finds a project, and
* the names of its units differ, in any case;
* every entry of the program's `uses` clause with an `in` part, and every other one that does
  not name a library unit, has a unit, if the program can be read;
* every source that the project file lists has a unit, if the project file can be read;
* the units without a file are, one to one and in order, those that the warnings about
  missing units name. -/
theorem discover_accounts (tree : FileTree) (env : Environment) (c : Config) (path : Path)
    {program projectFile : Option Path}
    (hstart : locate tree path c.extensions = .ok (.program program projectFile)) :
    ∃ r, discover tree env c path = .ok r ∧
      NamesDiffer r.project.units ∧
      (∀ source bytes, r.project.program = some source → tree.read source = .ok bytes →
        ∀ entry ∈ Program.uses (Utf8.lossy bytes),
          entry.inPath.isSome ∨ isSystemUnit entry.name c.scan.extraSystemPrefixes = false →
          r.project.hasUnit entry.name = true) ∧
      (∀ file m, projectFile = some file → readProjectFile tree (env.get? "BDS") file = .ok m →
        ∀ source ∈ m.sourceFiles, r.project.hasUnit source.unitName = true) ∧
      List.Forall₂ (fun (u : SourceUnit) w => w.Names u.name)
        (r.project.units.filter (!·.hasFile)) (r.warnings.filter Warning.isMissing) := by
  obtain ⟨start, uses, sources, hadds, huses, hsources⟩ :=
    adds_ofProgram tree env c program projectFile
  obtain ⟨hdiffer, hmissing⟩ := hadds.accounted_end
  refine ⟨(ofProgram tree env c program projectFile).withLines, ?_, hdiffer, ?_, ?_, hmissing⟩
  · simp only [discover, hstart]
    rfl
  · intro source bytes hprogram hread entry hentry hwanted
    refine hadds.hasUnit fun root dirs => ⟨_, ?_, name_ofUses tree c.extensions root dirs entry⟩
    refine List.mem_append_left _ (List.mem_map_of_mem (List.mem_filter.mpr ⟨?_, ?_⟩))
    · rwa [huses source bytes hprogram hread]
    · rcases hwanted with h | h <;> simp [isForeign, h, ← Option.not_isSome]
  · intro file m hfile hread source hsource
    refine hadds.hasUnit fun root dirs => ⟨_, ?_, name_ofSource tree root source⟩
    refine List.mem_append_right _ (List.mem_map_of_mem ?_)
    rwa [hsources file m hfile hread]

/-- A program and its project file: a library unit, a unit that is nowhere and is used twice, one
that is found above the directory of the program, one that is not where it should be, and one that
only the project file lists. -/
def sharedUnits : FileTree :=
  ((FileTree.empty.addFile "/work/app/App.dpr" (Text.ofString "program App; uses SysUtils, uGhost, " ++
    Text.ofString "uShared in '..\\..\\lib\\uShared.pas', uOld in '/old/uOld.pas', UGHOST; begin end.")).addFile
    "/work/app/App.dproj" (Text.ofString
      "<Project><ItemGroup><DCCReference Include='..\\uList.pas'/></ItemGroup></Project>")).addFile
    "/lib/uShared.pas" (Text.ofString "unit uShared; end.")

theorem discover_ghosts :
    locate sharedUnits "/work/app/App.dpr" Config.default.extensions =
        .ok (.program (some "/work/app/App.dpr") (some "/work/app/App.dproj")) ∧
      ∃ r, discover sharedUnits [] Config.default "/work/app/App.dpr" = .ok r ∧
        NamesDiffer r.project.units ∧
        (r.project.units.filter (!·.hasFile)).map (·.name) =
          Text.ofStrings ["uGhost", "uOld", "uList"] ∧
        List.Forall₂ (fun (u : SourceUnit) w => w.Names u.name)
          (r.project.units.filter (!·.hasFile)) (r.warnings.filter Warning.isMissing) := by
  have hstart : locate sharedUnits "/work/app/App.dpr" Config.default.extensions =
      .ok (.program (some "/work/app/App.dpr") (some "/work/app/App.dproj")) := by
    decide +kernel
  obtain ⟨r, hr, hdiffer, -, -, hmissing⟩ :=
    discover_accounts sharedUnits [] Config.default "/work/app/App.dpr" hstart
  have hnames : (discover sharedUnits [] Config.default "/work/app/App.dpr").toOption.map
      (fun r => (r.project.units.filter (!·.hasFile)).map (·.name)) =
        some (Text.ofStrings ["uGhost", "uOld", "uList"]) := by
    decide +kernel
  rw [hr] at hnames
  exact ⟨hstart, r, hr, hdiffer, Option.some.inj hnames, hmissing⟩

end Discovery
end PascalSurvey
