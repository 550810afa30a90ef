/-
PascalSurvey/Proofs/Discovery/WorkingDirectory.lean

Discovery at a bare file name, and at the same name behind a dot.  The directory of a bare name is
the empty path, which leads to the working directory but cannot be opened.  So both discoveries see
the same files, and differ only where one looks into a listing: for a project file or a program
beside the other, and for a unit, in another letter case.  Besides, the project file may name its
directory, which is then spelled in two ways.

Main result: a discovery at a bare name succeeds, and so does the one behind a dot; apart from these
cases they find the same two files and come out alike (`discover_here`).
-/
import PascalSurvey.Proofs.Discovery.MainSource
import PascalSurvey.Proofs.Discovery.Spelling

namespace PascalSurvey.Discovery

open Ascii PascalSurvey.Path FileTree

variable {tree : FileTree} {env : Environment} {c : Config}

/-! ### The two files -/

theorem isFile_join_here (tree : FileTree) (p : Path) :
    tree.isFile (Path.join "." p) = tree.isFile p := by
  have h := SamePlace.isFile_join (samePlace_here tree) p
  rw [← h, join_nil]

theorem read_join_here {p : Path} (h : tree.isFile p = true) :
    tree.read (Path.join "." p) = tree.read p := by
  have hself {x : Path} (hx : x = [] ∨ x = [dot]) : p ≠ x := by
    rintro rfl
    rw [← join_nil p, isFile_join_self tree [] hx] at h
    cases h
  have hlocate := SamePlace.locate_join (samePlace_here tree) (hself (.inl rfl))
    (hself (.inr rfl))
  rw [join_nil] at hlocate
  rw [FileTree.read, FileTree.read, hlocate]

/-- The directory of a file behind a dot is not the empty path. -/
theorem parent?_join_here_ne_nil {p dir : Path} (h : tree.isFile p = true)
    (hdir : parent? (Path.join "." p) = some dir) : dir ≠ [] := by
  obtain ⟨hp, place, bytes, hplace, hfind⟩ := placeOf_of_isFile h
  have hcomponents := components_parent? hdir
  rintro rfl
  cases habs : isAbsolute p with
  | true =>
    rw [join_of_isAbsolute habs, components_eq p, habs, if_pos rfl] at hcomponents
    cases hrest : componentsOf (Text.split slash p) with
    | nil =>
      -- the root is no file
      rw [placeOf_of_isAbsolute habs, components_eq, habs, if_pos rfl, hrest, List.append_nil] at hplace
      obtain rfl : place = [] :=
        eq_nil_of_follow_root (show tree.follow [] ([] ++ [.root]) = _ from hplace)
      cases hfind
    | cons c cs =>
      rw [hrest] at hcomponents
      cases hcomponents
  | false =>
    rw [components_join_here habs] at hcomponents
    cases hinner : inner p with
    | nil =>
      -- neither is the working directory
      have hcurrent : components p = [.current] := by
        refine (components_of_relative habs).resolve_left (fun hnil => ?_) |>.trans (by rw [hinner])
        exact components_ne_nil hp (hnil.trans hinner)
      have hhere : tree.SamePlace [] p := .of_current rfl hcurrent
      rw [find?_of_placeOf_nil (Eq.trans hhere hplace)] at hfind
      cases hfind
    | cons c cs =>
      rw [hinner] at hcomponents
      cases hcomponents

/-- What a program says is the same behind a dot. -/
theorem factsOf_join_here {program : Option Path} (h : ∀ p ∈ program, tree.isFile p = true)
    (root root' : Path) :
    let facts := factsOf tree root program
    let facts' := factsOf tree root' (program.map (Path.join "."))
    facts'.1.unit.map unitOutcome = facts.1.unit.map unitOutcome ∧ facts'.1.uses = facts.1.uses ∧
      facts'.2.map (·.kind) = facts.2.map (·.kind) := by
  cases program with
  | none => exact ⟨rfl, rfl, rfl⟩
  | some p =>
    have hname (t : Text) : (Outline.ofText t (Path.join "." p)).name = (Outline.ofText t p).name := by
      unfold Outline.ofText
      rw [stemText?_join_here]
    simp only [factsOf, readProgram, Option.map_some, read_join_here (h p rfl), hname]
    cases tree.read p with
    | error e => exact ⟨rfl, rfl, rfl⟩
    | ok bytes => exact ⟨rfl, rfl, rfl⟩

/-- A project file has a variable for its directory where it counts. -/
def SpellsDirectory (tree : FileTree) (env : Environment) (file : Path) : Prop :=
  ∃ bytes root, tree.read file = .ok bytes ∧ Xml.parse (Utf8.lossy bytes) = .ok root ∧
    ¬ProjectFile.LeavesDirectory tree
      { ProjectFile.Surroundings.ofFile file with bds := env.get? "BDS" } root

/-- A project file is read behind a dot as it is under its bare name, but for the spelling of its
directory. -/
theorem readProjectFile_join_here {file : Path} (hname : IsName file)
    (hfile : tree.isFile file = true) :
    (∃ w w', readProjectFile tree (env.get? "BDS") file = .error w ∧
      readProjectFile tree (env.get? "BDS") (Path.join "." file) = .error w' ∧ w'.kind = w.kind) ∨
    ∃ m m', readProjectFile tree (env.get? "BDS") file = .ok m ∧
      readProjectFile tree (env.get? "BDS") (Path.join "." file) = .ok m' ∧
      m'.mainSource = m.mainSource ∧
      (¬SpellsDirectory tree env file → m'.searchPaths = m.searchPaths ∧
        m'.sourceFiles.map (ProjectFile.SourceFile.outcome tree) =
          m.sourceFiles.map (ProjectFile.SourceFile.outcome tree)) := by
  unfold readProjectFile
  rw [read_join_here hfile]
  cases hbytes : tree.read file with
  | error e => exact .inl ⟨_, _, rfl, rfl, rfl⟩
  | ok bytes =>
    dsimp only
    unfold ProjectFile.read
    cases hparse : Xml.parse (Utf8.lossy bytes) with
    | error e => exact .inl ⟨_, _, rfl, rfl, rfl⟩
    | ok root =>
      dsimp only
      rw [ProjectFile.ofTree_eq, ProjectFile.ofTree_eq]
      cases Text.eqFold root.name "Project" with
      | false => exact .inl ⟨_, _, rfl, rfl, rfl⟩
      | true =>
        let s := { ProjectFile.Surroundings.ofFile file with bds := env.get? "BDS" }
        let s' := { ProjectFile.Surroundings.ofFile (Path.join "." file) with bds := env.get? "BDS" }
        have hs : s.SameButDirectory s' := ⟨(stemText?_join_here file).symm, rfl⟩
        obtain ⟨hmain, hleaves⟩ := ProjectFile.metadata_directory hs (parent?_of_isName hname)
          (parent?_join_here hname) (samePlace_here tree) root
        refine .inr ⟨_, _, rfl, rfl, hmain, fun hspells => hleaves ?_⟩
        exact Classical.not_not.mp fun hnot => hspells ⟨bytes, root, hbytes, hparse, hnot⟩

theorem mainSource?_join_here {file : Path} (hname : IsName file) {m m' : ProjectFile.Metadata}
    (hmain : m'.mainSource = m.mainSource) :
    mainSource? tree (Path.join "." file) m' = (mainSource? tree file m).map (Path.join ".") := by
  unfold mainSource?
  rw [parent?_of_isName hname, parent?_join_here hname, hmain]
  cases m.mainSource with
  | none => rfl
  | some main =>
    simp only [Option.bind_eq_bind, Option.bind_some, join_nil, isFile_join_here]
    split <;> rfl

/-! ### The start -/

/-- A file of the working directory, by its bare name. -/
def BareFile (tree : FileTree) (p : Path) : Prop := IsName p ∧ tree.isFile p = true

variable {program projectFile : Option Path}

/-- What is known of the project file is the same behind a dot. -/
theorem metadataOf_join_here (hfile : ∀ p ∈ projectFile, BareFile tree p) :
    let m := metadataOf tree env projectFile
    let m' := metadataOf tree env (projectFile.map (Path.join "."))
    m'.2.map (·.kind) = m.2.map (·.kind) ∧
      (do mainSource? tree (← projectFile.map (Path.join ".")) (← m'.1)) =
        (do mainSource? tree (← projectFile) (← m.1)).map (Path.join ".") ∧
      ((∀ file ∈ projectFile, ¬SpellsDirectory tree env file) →
        m'.1.map (·.searchPaths) = m.1.map (·.searchPaths) ∧
        ((m'.1.map (·.sourceFiles)).getD []).map (ProjectFile.SourceFile.outcome tree) =
          ((m.1.map (·.sourceFiles)).getD []).map (ProjectFile.SourceFile.outcome tree)) := by
  cases projectFile with
  | none => exact ⟨rfl, rfl, fun _ => ⟨rfl, rfl⟩⟩
  | some file =>
    obtain ⟨hname, hisFile⟩ := hfile file rfl
    simp only [metadataOf, Option.map_some]
    rcases readProjectFile_join_here hname hisFile with
      ⟨w, w', hread, hread', hkind⟩ | ⟨m, m', hread, hread', hmain, hspells⟩
    · rw [hread, hread']
      exact ⟨congrArg (fun k => [k]) hkind, rfl, fun _ => ⟨rfl, rfl⟩⟩
    · rw [hread, hread']
      refine ⟨rfl, mainSource?_join_here hname hmain, fun hno => ?_⟩
      obtain ⟨hpaths, hsources⟩ := hspells (hno file rfl)
      exact ⟨congrArg some hpaths, hsources⟩

/-- **Behind a dot discovery starts from the same**, but for the spelling of the directory. -/
theorem start_join_here (hprogram : ∀ p ∈ program, BareFile tree p)
    (hfile : ∀ p ∈ projectFile, BareFile tree p) :
    let s := Start.of tree env program projectFile
    let s' := Start.of tree env (program.map (Path.join ".")) (projectFile.map (Path.join "."))
    s'.program = s.program.map (Path.join ".") ∧ (∀ p ∈ s.program, tree.isFile p = true) ∧
      s'.facts.unit.map unitOutcome = s.facts.unit.map unitOutcome ∧
      s'.facts.uses = s.facts.uses ∧ s'.warnings.map (·.kind) = s.warnings.map (·.kind) := by
  intro s s'
  obtain ⟨hkinds, hmain, -⟩ := @metadataOf_join_here tree env projectFile hfile
  have hprogram' : s'.program = s.program.map (Path.join ".") := by
    show (program.map _).or _ = (program.or _).map _
    rw [hmain, Option.map_or]
  have hisFile : ∀ p ∈ s.program, tree.isFile p = true := by
    intro p hp
    rcases Option.or_eq_some_iff.mp hp with hfound | ⟨-, hfound⟩
    · exact (hprogram p hfound).2
    · obtain ⟨file, -, hfound⟩ := Option.bind_eq_some_iff.mp hfound
      obtain ⟨m, -, hfound⟩ := Option.bind_eq_some_iff.mp hfound
      obtain ⟨-, -, -, -, -, hmainFile⟩ := mainSource?_eq_some_iff.mp hfound
      exact hmainFile
  have hfacts : s'.facts = (factsOf tree s'.root (s.program.map (Path.join "."))).1 := by
    rw [← hprogram']
    rfl
  have hwarnings : s'.warnings = (metadataOf tree env (projectFile.map (Path.join "."))).2 ++
      (factsOf tree s'.root (s.program.map (Path.join "."))).2.toList := by
    rw [← hprogram']
    rfl
  obtain ⟨hunit, huses, hkind⟩ := factsOf_join_here hisFile s.root s'.root
  refine ⟨hprogram', hisFile, ?_, ?_, ?_⟩
  · rw [hfacts]
    exact hunit
  · rw [hfacts]
    exact huses
  · rw [hwarnings, List.map_append, hkinds, ← Option.toList_map, hkind, Option.toList_map,
      ← List.map_append]
    rfl

/-- The root lies in the same place, and behind a dot it is not empty. -/
theorem rootOf_join_here (h : ∀ p ∈ program.or projectFile, tree.isFile p = true)
    (hsome : (program.or projectFile).isSome = true) :
    let root' := rootOf (program.map (Path.join ".")) (projectFile.map (Path.join "."))
    tree.SamePlace (rootOf program projectFile) root' ∧ root' ≠ [] := by
  obtain ⟨p, hp⟩ := Option.isSome_iff_exists.mp hsome
  have hfile := h p hp
  obtain ⟨dir, hdir⟩ := exists_parent?_of_isFile hfile
  obtain ⟨dir', hdir'⟩ := exists_parent?_of_isFile ((isFile_join_here tree p).trans hfile)
  unfold rootOf
  rw [← Option.map_or, hp, Option.map_some, Option.bind_some, Option.bind_some, hdir, hdir']
  exact ⟨samePlace_parent hdir hdir', parent?_join_here_ne_nil hfile hdir'⟩

/-- So do the roots of the two starts. -/
theorem root_join_here (hprogram : ∀ p ∈ program, BareFile tree p)
    (hfile : ∀ p ∈ projectFile, BareFile tree p) (hsome : (program.or projectFile).isSome = true) :
    let s := Start.of tree env program projectFile
    let s' := Start.of tree env (program.map (Path.join ".")) (projectFile.map (Path.join "."))
    tree.SamePlace s.root s'.root ∧ s'.root ≠ [] := by
  intro s s'
  obtain ⟨hstart, hisFile, -⟩ := @start_join_here tree env _ _ hprogram hfile
  have hfound : ∀ p ∈ s.program.or projectFile, tree.isFile p = true := by
    intro p hp
    rcases Option.or_eq_some_iff.mp hp with hp | ⟨-, hp⟩
    · exact hisFile p hp
    · exact (hfile p hp).2
  have hsome' : (s.program.or projectFile).isSome = true := by
    rw [show s.program = program.or _ from rfl]
    rw [Option.isSome_or, Bool.or_eq_true] at hsome ⊢
    rw [Option.isSome_or, Bool.or_eq_true]
    exact hsome.imp_left .inl
  have hroots := rootOf_join_here hfound hsome'
  rw [← hstart] at hroots
  exact hroots

/-! ### What comes out -/

/-- The program lies in the working directory and uses a unit of which that directory has a file,
but none in the spelling of the unit. -/
def UsesFolded (tree : FileTree) (c : Config) (p : Project) : Prop :=
  p.root = [] ∧ ∃ program bytes entry, p.program = some program ∧ tree.read program = .ok bytes ∧
    entry ∈ Program.uses (Utf8.lossy bytes) ∧ isForeign c.scan.extraSystemPrefixes entry = false ∧
    FoldedOnly tree (c.extensions.map (entry.name ++ ·))

theorem exists_of_mem_uses {root : Path} {program : Option Path} {entry : Outline.UsesEntry}
    (h : entry ∈ (factsOf tree root program).1.uses) :
    ∃ p bytes, program = some p ∧ tree.read p = .ok bytes ∧
      entry ∈ Program.uses (Utf8.lossy bytes) := by
  cases program with
  | none => cases h
  | some p =>
    unfold factsOf readProgram at h
    dsimp only at h
    split at h
    · cases h
    · next bytes hbytes => exact ⟨p, bytes, rfl, hbytes, h⟩

/-- **Discovery of two bare files comes out as behind a dot.** -/
theorem ofProgram_join_here (ht : tree.Named) (hprogram : ∀ p ∈ program, BareFile tree p)
    (hfile : ∀ p ∈ projectFile, BareFile tree p) (hsome : (program.or projectFile).isSome = true) :
    let r := ofProgram tree env c program projectFile
    let r' := ofProgram tree env c (program.map (Path.join ".")) (projectFile.map (Path.join "."))
    r'.project.program = r.project.program.map (Path.join ".") ∧
      r'.project.projectFile = r.project.projectFile.map (Path.join ".") ∧
      (¬UsesFolded tree c r.project →
        (∀ file, r.project.projectFile = some file → ¬SpellsDirectory tree env file) →
        r'.outcome = r.outcome) := by
  intro r r'
  let s := Start.of tree env program projectFile
  let s' := Start.of tree env (program.map (Path.join ".")) (projectFile.map (Path.join "."))
  obtain ⟨hstart, -, hunit, huses, hkinds⟩ := @start_join_here tree env _ _ hprogram hfile
  obtain ⟨hroot, hprog, hproj⟩ := files_ofProgram tree env c program projectFile
  obtain ⟨-, hprog', hproj'⟩ := files_ofProgram tree env c (program.map (Path.join "."))
    (projectFile.map (Path.join "."))
  refine ⟨?_, ?_, fun hspelled hspells => ?_⟩
  · rw [hprog', hprog, hstart]
  · rw [hproj', hproj]
  · obtain ⟨-, -, hmetadata⟩ := @metadataOf_join_here tree env projectFile hfile
    obtain ⟨hpaths, hsources⟩ := hmetadata fun file hmem => hspells file (hproj.trans hmem)
    obtain ⟨hplace, hroot'⟩ := @root_join_here tree env _ _ hprogram hfile hsome
    rw [outcome_ofProgram, outcome_ofProgram]
    refine Start.outcome_last hunit hkinds ?_
    unfold Start.references
    rw [@Start.searchPaths_blank s' s hpaths, huses]
    refine (answers_congr ht hplace hroot' _ (fun hnil entry hentry hwanted hfolded => ?_) hsources).symm
    obtain ⟨p, bytes, hp, hbytes, hmem⟩ := exists_of_mem_uses hentry
    exact hspelled ⟨hroot.trans hnil, p, bytes, entry, hprog.trans hp, hbytes, hmem, hwanted, hfolded⟩

/-! ### Where discovery starts -/

/-- The extension of the file that belongs to a program or a project file. -/
def otherExtension (f : Path) : Text :=
  if extensionOf f = projectFileExtension then programExtension else projectFileExtension

/-- Beside a file of the working directory lies the one that belongs to it, but its stem or its
extension is spelled in another letter case. -/
def SiblingFolded (tree : FileTree) (f : Path) : Prop :=
  ∃ stem entries, stemText? f = some stem ∧
    tree.isFile (stem ++ dot :: otherExtension f) = false ∧
    tree.list "." = .ok entries ∧ ∃ p ∈ entries, isNamed tree stem (otherExtension f) p = true

theorem extensionOf_join_here (p : Path) : extensionOf (Path.join "." p) = extensionOf p := by
  rw [extensionOf, extensionOf, extensionText?_join_here]

theorem exists_stemText? {f : Path} (h : IsName f) : ∃ stem, stemText? f = some stem := by
  rw [stemText?, fileStem?, fileName?_of_isName h]
  exact ⟨_, rfl⟩

theorem isName_sibling {f stem : Path} (hstem : stemText? f = some stem) :
    IsName (stem ++ dot :: otherExtension f) := by
  unfold otherExtension
  split
  · exact isName_of_stemText? hstem (by decide) (by decide)
  · exact isName_of_stemText? hstem (by decide) (by decide)

/-- The empty path cannot be listed, so beside a bare name only the exact spelling is found. -/
theorem sibling?_of_isName {f stem : Path} (hf : IsName f) (hstem : stemText? f = some stem)
    (extension : Text) :
    sibling? tree f extension =
      if tree.isFile (stem ++ dot :: extension) then some (stem ++ dot :: extension) else none := by
  unfold sibling?
  rw [hstem, parent?_of_isName hf]
  dsimp only
  rw [join_nil]
  rfl

/-- **Behind a dot the same file is found beside it**, unless only the listing has it. -/
theorem sibling?_join_here {f : Path} (hf : IsName f) (hfolded : ¬SiblingFolded tree f) :
    sibling? tree (Path.join "." f) (otherExtension f) =
      (sibling? tree f (otherExtension f)).map (Path.join ".") := by
  obtain ⟨stem, hstem⟩ := exists_stemText? hf
  rw [sibling?_of_isName hf hstem]
  unfold sibling?
  rw [stemText?_join_here, hstem, parent?_join_here hf]
  dsimp only
  rw [isFile_join_here]
  cases hexact : tree.isFile (stem ++ dot :: otherExtension f) with
  | true => rfl
  | false =>
    cases hlist : tree.list (Text.ofString ".") with
    | error e => rfl
    | ok entries =>
      refine List.find?_eq_none.mpr fun p hp hnamed => hfolded ?_
      exact ⟨stem, entries, hstem, hexact, hlist, p, hp, hnamed⟩

theorem bareFile_of_sibling? {f p : Path} (hf : IsName f)
    (h : sibling? tree f (otherExtension f) = some p) : BareFile tree p := by
  obtain ⟨stem, hstem⟩ := exists_stemText? hf
  rw [sibling?_of_isName hf hstem] at h
  split at h
  · next hexact =>
    obtain rfl := Option.some.inj h
    exact ⟨isName_sibling hstem, hexact⟩
  · cases h

/-- The program and the project file, where one of them is given and the other may lie beside it. -/
def filesOf (f : Path) (other : Option Path) : Option Path × Option Path :=
  if extensionOf f = projectFileExtension then (other, some f) else (some f, other)

theorem filesOf_join_here (f : Path) (other : Option Path) :
    filesOf (Path.join "." f) (other.map (Path.join ".")) =
      ((filesOf f other).1.map (Path.join "."), (filesOf f other).2.map (Path.join ".")) := by
  unfold filesOf
  rw [extensionOf_join_here]
  split <;> rfl

theorem bareFiles_filesOf {f : Path} (hname : IsName f) (hfile : tree.isFile f = true) :
    let files := filesOf f (sibling? tree f (otherExtension f))
    (∀ p ∈ files.1, BareFile tree p) ∧ (∀ p ∈ files.2, BareFile tree p) ∧
      (files.1.or files.2).isSome = true := by
  have hself : ∀ p ∈ some f, BareFile tree p := by
    intro p hp
    obtain rfl := Option.some.inj hp
    exact ⟨hname, hfile⟩
  have hother : ∀ p ∈ sibling? tree f (otherExtension f), BareFile tree p :=
    fun p hp => bareFile_of_sibling? hname hp
  unfold filesOf
  split
  · exact ⟨hother, hself, by simp⟩
  · exact ⟨hself, hother, by simp⟩

/-- Discovery at a program or a project file is discovery of the two files. -/
theorem discover_of_isFile {f : Path} (hfile : tree.isFile f = true)
    (hextension : extensionOf f = programExtension ∨ extensionOf f = projectFileExtension) :
    let files := filesOf f (sibling? tree f (otherExtension f))
    discover tree env c f = .ok (ofProgram tree env c files.1 files.2).withLines := by
  have hlocate : locate tree f c.extensions =
      .ok (.program (filesOf f (sibling? tree f (otherExtension f))).1
        (filesOf f (sibling? tree f (otherExtension f))).2) := by
    unfold locate filesOf otherExtension
    rw [exists?_of_isFile hfile, hfile]
    by_cases hproject : extensionOf f = projectFileExtension
    · simp [hproject]
    · have hne : programExtension ≠ projectFileExtension := by decide
      simp [hextension.resolve_right hproject, hne]
  rw [discover, hlocate]
  rfl

/-- **Main.**  Discovery at a program or a project file of the working directory succeeds, both at
the bare name and at the same name behind a dot.
* Unless the file that belongs to it is there in another letter case only, both find the same
  program and the same project file, but for the dot.
* Unless, besides, the program uses a unit that the working directory has in another letter case
  only, or the project file has a variable for its directory, the units are the same by name and in
  order, the same ones have a file, and there are warnings of the same kinds. -/
theorem discover_here (ht : tree.Named) {f : Path} (hname : IsName f) (hfile : tree.isFile f = true)
    (hextension : extensionOf f = programExtension ∨ extensionOf f = projectFileExtension) :
    ∃ r r', discover tree env c f = .ok r ∧ discover tree env c (Path.join "." f) = .ok r' ∧
      (¬SiblingFolded tree f →
        r'.project.program = r.project.program.map (Path.join ".") ∧
        r'.project.projectFile = r.project.projectFile.map (Path.join ".") ∧
        (¬UsesFolded tree c r.project →
          (∀ file, r.project.projectFile = some file → ¬SpellsDirectory tree env file) →
          r'.project.units.map (fun u => (u.name, u.hasFile)) =
              r.project.units.map (fun u => (u.name, u.hasFile)) ∧
            r'.warnings.map (·.kind) = r.warnings.map (·.kind))) := by
  have hbare : discover tree env c f = _ := discover_of_isFile hfile hextension
  have hdot : discover tree env c (Path.join "." f) = _ :=
    discover_of_isFile ((isFile_join_here tree f).trans hfile)
      ((extensionOf_join_here f).symm ▸ hextension)
  by_cases hfolded : SiblingFolded tree f
  · exact ⟨_, _, hbare, hdot, fun hnot => absurd hfolded hnot⟩
  have hother : otherExtension (Path.join "." f) = otherExtension f := by
    rw [otherExtension, extensionOf_join_here, otherExtension]
  have hfiles := bareFiles_filesOf hname hfile
  rw [hother, sibling?_join_here hname hfolded, filesOf_join_here] at hdot
  obtain ⟨hprogram, hproject, houtcome⟩ :=
    @ofProgram_join_here tree env c _ _ ht hfiles.1 hfiles.2.1 hfiles.2.2
  generalize ofProgram tree env c _ _ = r at hbare hprogram hproject houtcome
  generalize ofProgram tree env c _ _ = r' at hdot hprogram hproject houtcome
  refine ⟨r.withLines, r'.withLines, hbare, hdot, fun _ => ⟨hprogram, hproject, ?_⟩⟩
  intro huses hspells
  have hsame : r'.outcome = r.outcome := houtcome huses hspells
  exact ⟨congrArg Outcome.units hsame, congrArg Outcome.kinds hsame⟩

/-- What is compared of two discoveries. -/
structure Told where
  program : Option Path
  projectFile : Option Path
  outcome : Outcome
  deriving DecidableEq

def told (r : Resolution) : Told := ⟨r.project.program, r.project.projectFile, r.outcome⟩

/-- A program that uses a unit that is there and one that is not. -/
def tidyProgram : Text := "program App; uses uMain, uGhost; begin end."

/-- A project file that lists a unit that is not there. -/
def tidyProject : Text :=
  "<Project><ItemGroup><DCCReference Include='lib\\uList.pas'/></ItemGroup></Project>"

def tidyFolder : FileTree :=
  ((FileTree.empty.addFile "App.dpr" tidyProgram).addFile "App.dproj" tidyProject).addFile
    "uMain.pas" (Text.ofString "unit uMain; end.")

theorem named_tidyFolder : tidyFolder.Named :=
  ((named_empty.addFile _ _).addFile _ _).addFile _ _

/-- No unit of the program is there in another letter case only. -/
theorem not_usesFolded_tidyFolder {p : Project}
    (hprogram : p.program = some (Text.ofString "App.dpr")) :
    ¬UsesFolded tidyFolder Config.default p := by
  rintro ⟨-, program, bytes, entry, hsome, hread, hentry, -, hsupplies, hexact⟩
  have hread' : tidyFolder.read "App.dpr" = .ok tidyProgram := by decide +kernel
  have hspelled : ∀ entry ∈ Program.uses (Utf8.lossy tidyProgram),
      (foldedFile? tidyFolder "." (Config.default.extensions.map (entry.name ++ ·))).isSome = true →
        exactFile? tidyFolder "." (Config.default.extensions.map (entry.name ++ ·)) ≠ none := by
    decide +kernel
  have hvalid : ∀ entry ∈ Program.uses (Utf8.lossy tidyProgram),
      ∀ name ∈ Config.default.extensions.map (entry.name ++ ·), Utf8.isValid name = true := by
    decide +kernel
  rw [hprogram] at hsome
  obtain rfl := Option.some.inj hsome
  obtain rfl := Except.ok.inj (hread.symm.trans hread')
  obtain ⟨name, hname, hholds⟩ := hsupplies
  have hfolded : HoldsFolded tidyFolder "." name :=
    hholds.elim (.of_holds (hvalid entry hentry name hname)) id
  exact hspelled entry hentry ((isSome_foldedFile?_iff named_tidyFolder _ _).mpr
    ⟨name, hname, hfolded⟩) hexact

/-- The project file has no variable for its directory. -/
theorem not_spellsDirectory_tidyFolder : ¬SpellsDirectory tidyFolder [] "App.dproj" := by
  rintro ⟨bytes, root, hread, hparse, hnot⟩
  have hread' : tidyFolder.read "App.dproj" = .ok tidyProject := by decide +kernel
  have hleaves : (Xml.parse (Utf8.lossy tidyProject)).toOption.all (fun root =>
      decide (ProjectFile.LeavesDirectory tidyFolder
        { ProjectFile.Surroundings.ofFile "App.dproj" with bds := none } root)) = true := by
    decide +kernel
  obtain rfl := Except.ok.inj (hread.symm.trans hread')
  rw [hparse] at hleaves
  exact hnot (of_decide_eq_true hleaves)

/-- The project file lies beside the program in the very same spelling. -/
theorem not_siblingFolded_tidyFolder : ¬SiblingFolded tidyFolder "App.dpr" := by
  rintro ⟨stem, entries, hstem, hexact, -⟩
  have hexact' : (stemText? "App.dpr").all (fun stem =>
      tidyFolder.isFile (stem ++ dot :: otherExtension "App.dpr")) = true := by
    decide +kernel
  rw [hstem, Option.all_some, hexact] at hexact'
  cases hexact'

theorem discover_tidyFolder :
    tidyFolder.Named ∧ IsName "App.dpr" ∧ tidyFolder.isFile "App.dpr" = true ∧
      extensionOf "App.dpr" = programExtension ∧ ¬SiblingFolded tidyFolder "App.dpr" ∧
      ∃ r r', discover tidyFolder [] Config.default "App.dpr" = .ok r ∧
        discover tidyFolder [] Config.default "./App.dpr" = .ok r' ∧
        ¬UsesFolded tidyFolder Config.default r.project ∧
        (∀ file, r.project.projectFile = some file → ¬SpellsDirectory tidyFolder [] file) ∧
        told r' = ⟨some (Text.ofString "./App.dpr"), some (Text.ofString "./App.dproj"),
          [(Text.ofString "App", true), (Text.ofString "uMain", true), (Text.ofString "uGhost", false),
            (Text.ofString "uList", false)], [.unresolvedUnit, .missingFile]⟩ := by
  have hname : IsName "App.dpr" := by decide
  have hfile : tidyFolder.isFile "App.dpr" = true := by decide +kernel
  have hextension : extensionOf "App.dpr" = programExtension := by decide +kernel
  have htold : (discover tidyFolder [] Config.default "App.dpr").toOption.map told =
      some ⟨some (Text.ofString "App.dpr"), some (Text.ofString "App.dproj"),
        [(Text.ofString "App", true), (Text.ofString "uMain", true), (Text.ofString "uGhost", false),
          (Text.ofString "uList", false)], [.unresolvedUnit, .missingFile]⟩ := by
    decide +kernel
  obtain ⟨r, r', hr, hr', hsame⟩ := @discover_here tidyFolder [] Config.default named_tidyFolder
    "App.dpr" hname hfile (.inl hextension)
  rw [hr] at htold
  have htold : told r = _ := Option.some.inj htold
  obtain ⟨hprogram, hproject, houtcome⟩ := Told.mk.inj htold
  obtain ⟨hprogram', hproject', houtcome'⟩ := hsame not_siblingFolded_tidyFolder
  have huses := not_usesFolded_tidyFolder hprogram
  have hspells : ∀ file, r.project.projectFile = some file →
      ¬SpellsDirectory tidyFolder [] file := by
    intro file hsome
    rw [hproject] at hsome
    obtain rfl := Option.some.inj hsome
    exact not_spellsDirectory_tidyFolder
  obtain ⟨hunits, hkinds⟩ := houtcome' huses hspells
  have hsame : r'.outcome = r.outcome := Outcome.ext hunits hkinds
  refine ⟨named_tidyFolder, hname, hfile, hextension, not_siblingFolded_tidyFolder, r, r', hr, hr',
    huses, hspells, ?_⟩
  rw [told, hprogram', hproject', hsame, hprogram, hproject, houtcome]
  rfl

/-- A unit of the program is there in capitals. -/
def capitalUnit : FileTree :=
  (FileTree.empty.addFile "App.dpr" (Text.ofString "program App; uses uData; begin end.")).addFile
    "UDATA.PAS" (Text.ofString "unit uData; end.")

/-- The project file is there in capitals. -/
def capitalProject : FileTree :=
  (FileTree.empty.addFile "App.dpr" (Text.ofString "program App; begin end.")).addFile "APP.DPROJ"
    (Text.ofString "<Project/>")

/-- The project file names its directory. -/
def namedDirectory : FileTree :=
  (FileTree.empty.addFile "App.dproj" (Text.ofString
    "<Project><ItemGroup><DCCReference Include='$(ProjectDir)uA.pas'/></ItemGroup></Project>")).addFile
    "uA.pas" (Text.ofString "unit uA; end.")

/-- At the bare name discovery misses a unit and a project file that lie beside the program, since
the empty path cannot be listed, and the variable for the directory of the project file becomes the
root; behind a dot it finds all three. -/
theorem discover_bareName :
    ((discover capitalUnit [] Config.default "App.dpr").toOption.map told =
        some ⟨some (Text.ofString "App.dpr"), none,
          [(Text.ofString "App", true), (Text.ofString "uData", false)], [.unresolvedUnit]⟩ ∧
      (discover capitalUnit [] Config.default "./App.dpr").toOption.map told =
        some ⟨some (Text.ofString "./App.dpr"), none,
          [(Text.ofString "App", true), (Text.ofString "uData", true)], []⟩) ∧
    ((discover capitalProject [] Config.default "App.dpr").toOption.map told =
        some ⟨some (Text.ofString "App.dpr"), none, [(Text.ofString "App", true)], []⟩ ∧
      (discover capitalProject [] Config.default "./App.dpr").toOption.map told =
        some ⟨some (Text.ofString "./App.dpr"), some (Text.ofString "./APP.DPROJ"),
          [(Text.ofString "App", true)], []⟩) ∧
    (discover namedDirectory [] Config.default "App.dproj").toOption.map told =
        some ⟨none, some (Text.ofString "App.dproj"), [(Text.ofString "uA", false)],
          [.missingFile]⟩ ∧
      (discover namedDirectory [] Config.default "./App.dproj").toOption.map told =
        some ⟨none, some (Text.ofString "./App.dproj"), [(Text.ofString "uA", true)], []⟩ := by
  refine ⟨⟨?_, ?_⟩, ⟨?_, ?_⟩, ?_, ?_⟩
  · decide +kernel
  · decide +kernel
  · decide +kernel
  · decide +kernel
  · decide +kernel
  · decide +kernel

end PascalSurvey.Discovery
