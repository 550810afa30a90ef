/-
PascalSurvey/Proofs/Discovery/MainSource.lean

Which program belongs to a project file.  Three things can name it, and they are asked at
different times: `locate` looks for a program beside the project file under the same stem, and,
where discovery starts at a directory, takes the first program in it for want of one.  Only
then is the project file read, and its main source counts if there is no program yet.

So a main source that exists is the program where nothing else can be (`Beside`, and the
programs of the directory), and it is passed over in favour of any other program that is
(`discover_passesOver`).

Main result: where discovery starts at a project file, the program is the one beside it, else
the first one of the directory, else the main source, and the main source is the program if no
other one is there (`discover_program`).
-/
import PascalSurvey.Proofs.Discovery.References
import PascalSurvey.Proofs.FileTree.Places

namespace PascalSurvey.Discovery

/-! ### Where discovery starts -/

/-- Discovery at a path starts at a project file: the path itself, or the first one of the
directory at the path.  `programs` are the programs of that directory in order, and none if the
path is the project file. -/
inductive StartsAt (tree : FileTree) (path : Path) : (projectFile : Path) → List Path → Prop
  | file : tree.isFile path = true → extensionOf path = projectFileExtension →
      StartsAt tree path path []
  | directory {entries rest : List Path} {projectFile : Path} :
      tree.list path = .ok entries →
      filesWith tree entries projectFileExtension = projectFile :: rest →
      StartsAt tree path projectFile (filesWith tree entries programExtension)

/-- A program lies beside a project file under its stem, in any case. -/
inductive Beside (tree : FileTree) (projectFile : Path) : Path → Prop
  | exact {stem dir : Path} : Path.stemText? projectFile = some stem →
      Path.parent? projectFile = some dir →
      tree.isFile (Path.join dir (stem ++ Ascii.dot :: programExtension)) = true →
      Beside tree projectFile (Path.join dir (stem ++ Ascii.dot :: programExtension))
  | folded {stem dir program : Path} {entries : List Path} :
      Path.stemText? projectFile = some stem → Path.parent? projectFile = some dir →
      tree.list dir = .ok entries → program ∈ entries →
      isNamed tree stem programExtension program = true → Beside tree projectFile program

/-- The main source of a project file names an existing file. -/
def NamesMain (tree : FileTree) (projectFile : Path) (m : ProjectFile.Metadata) (main : Path) :
    Prop :=
  ∃ dir source, Path.parent? projectFile = some dir ∧ m.mainSource = some source ∧
    main = Path.join dir (Text.forwardSlashes source) ∧ tree.isFile main = true

theorem beside_of_sibling? {tree : FileTree} {projectFile p : Path}
    (h : sibling? tree projectFile programExtension = some p) : Beside tree projectFile p := by
  unfold sibling? at h
  split at h
  · next stem dir hstem hdir =>
    dsimp only at h
    split at h
    · next hexact =>
      obtain rfl := Option.some.inj h
      exact .exact hstem hdir hexact
    · split at h
      · cases h
      · next entries hlist =>
        exact .folded hstem hdir hlist (List.mem_of_find?_eq_some h) (List.find?_some h)
  · cases h

theorem mainSource?_eq_some_iff {tree : FileTree} {projectFile main : Path}
    {m : ProjectFile.Metadata} :
    mainSource? tree projectFile m = some main ↔ NamesMain tree projectFile m main := by
  unfold mainSource? NamesMain
  simp only [Option.bind_eq_bind, Option.bind_eq_some_iff]
  constructor
  · rintro ⟨dir, hdir, source, hsource, h⟩
    split at h
    · next hfile =>
      obtain rfl := Option.some.inj h
      exact ⟨dir, source, hdir, hsource, rfl, hfile⟩
    · cases h
  · rintro ⟨dir, source, hdir, hsource, rfl, hfile⟩
    exact ⟨dir, hdir, source, hsource, by rw [if_pos hfile]⟩

/-- Before the project file is read, the program is the one beside it or the first one of the
directory. -/
theorem StartsAt.locate {tree : FileTree} {path projectFile : Path} {programs : List Path}
    (h : StartsAt tree path projectFile programs) (extensions : List Text) :
    locate tree path extensions = .ok (.program
      ((sibling? tree projectFile programExtension).or programs.head?) (some projectFile)) := by
  unfold Discovery.locate
  cases h with
  | file hfile hextension =>
    rw [FileTree.exists?_of_isFile hfile, hfile, hextension]
    simp
  | directory hlist hfirst =>
    obtain ⟨hexists, hnot⟩ := FileTree.isFile_of_list hlist
    rw [hexists, hnot, hlist]
    simp [locateIn, hfirst]

/-! ### The program of the project -/

/-- The main source of a project file that can be read is the program if no other one was
found. -/
theorem program_ofProgram {tree : FileTree} {env : Environment} {projectFile : Path}
    {m : ProjectFile.Metadata} (hread : readProjectFile tree (env.get? "BDS") projectFile = .ok m)
    (c : Config) (program : Option Path) :
    (ofProgram tree env c program (some projectFile)).project.program =
      program.or (mainSource? tree projectFile m) := by
  unfold ofProgram
  simp only [Option.map_some, hread]
  exact program_last _ m.searchPaths m.defines _ _ _

/-- **Main.**  Where discovery starts at a project file that can be read, it finds a project.
* The program of the project is the one beside the project file under its stem, else the first
  one of the directory where discovery starts, else the main source if that exists.
* So a main source that exists is the program, unless another program lies beside the project
  file or in the directory where discovery starts. -/
theorem discover_program {tree : FileTree} {env : Environment} {path projectFile : Path}
    {programs : List Path} {m : ProjectFile.Metadata} (c : Config)
    (hstart : StartsAt tree path projectFile programs)
    (hread : readProjectFile tree (env.get? "BDS") projectFile = .ok m) :
    ∃ r, discover tree env c path = .ok r ∧
      r.project.program = ((sibling? tree projectFile programExtension).or programs.head?).or
        (mainSource? tree projectFile m) ∧
      ∀ main, NamesMain tree projectFile m main →
        (∀ p, Beside tree projectFile p ∨ p ∈ programs → p = main) →
        r.project.program = some main := by
  have hprogram := program_ofProgram hread c
    ((sibling? tree projectFile programExtension).or programs.head?)
  refine ⟨(ofProgram tree env c ((sibling? tree projectFile programExtension).or programs.head?)
    (some projectFile)).withLines, ?_, hprogram, ?_⟩
  · rw [discover, hstart.locate]
    rfl
  intro main hmain hother
  refine hprogram.trans ?_
  cases hfound : (sibling? tree projectFile programExtension).or programs.head? with
  | none => exact mainSource?_eq_some_iff.mpr hmain
  | some p =>
    refine congrArg some (hother p ?_)
    rcases Option.or_eq_some_iff.mp hfound with hsibling | ⟨-, hhead⟩
    · exact .inl (beside_of_sibling? hsibling)
    · exact .inr (List.mem_of_mem_head? hhead)

/-- A project file with a main source, and programs. -/
def suite (main : Text) (programs : List Text) : FileTree :=
  programs.foldl (fun tree program => tree.addFile program (Text.ofString "program P; begin end."))
    (FileTree.empty.addFile "Suite.dproj" (Text.ofString "<Project><PropertyGroup><MainSource>" ++
      main ++ Text.ofString "</MainSource></PropertyGroup></Project>"))

/-- The project file at a path can be read and names `main`. -/
theorem exists_namesMain {tree : FileTree} {projectFile main : Path}
    (h : (readProjectFile tree none projectFile).toOption.bind (mainSource? tree projectFile) =
      some main) :
    ∃ m, readProjectFile tree none projectFile = .ok m ∧ NamesMain tree projectFile m main := by
  cases hread : readProjectFile tree none projectFile with
  | error w =>
    rw [hread] at h
    cases h
  | ok m =>
    rw [hread] at h
    exact ⟨m, rfl, mainSource?_eq_some_iff.mp h⟩

/-- The main source lies in another directory than the project file, beside which there is no
program. -/
def elsewhere : FileTree := suite "tests\\Runner.dpr" ["tests/Runner.dpr"]

theorem discover_elsewhere :
    StartsAt elsewhere "." "./Suite.dproj" [] ∧
      ∃ m, readProjectFile elsewhere (Environment.get? [] "BDS") "./Suite.dproj" = .ok m ∧
        NamesMain elsewhere "./Suite.dproj" m "./tests/Runner.dpr" ∧
        ∃ r, discover elsewhere [] Config.default "." = .ok r ∧
          r.project.program = some "./tests/Runner.dpr" := by
  have hlist : elsewhere.list "." = .ok (Text.ofStrings ["./Suite.dproj", "./tests"]) := by
    decide +kernel
  have hprograms : filesWith elsewhere (Text.ofStrings ["./Suite.dproj", "./tests"])
      programExtension = [] := by
    decide +kernel
  have hfirst : filesWith elsewhere (Text.ofStrings ["./Suite.dproj", "./tests"])
      projectFileExtension = [Text.ofString "./Suite.dproj"] := by
    decide +kernel
  have hstart : StartsAt elsewhere "." "./Suite.dproj" [] := hprograms ▸ .directory hlist hfirst
  have hnames : (readProjectFile elsewhere none "./Suite.dproj").toOption.bind
      (mainSource? elsewhere "./Suite.dproj") = some (Text.ofString "./tests/Runner.dpr") := by
    decide +kernel
  obtain ⟨m, hread, hmain⟩ := exists_namesMain hnames
  have hbeside : sibling? elsewhere "./Suite.dproj" programExtension = none := by
    decide +kernel
  obtain ⟨r, hr, hprogram, -⟩ := @discover_program _ [] _ _ _ _ Config.default hstart hread
  refine ⟨hstart, m, hread, hmain, r, hr, ?_⟩
  rw [hprogram, hbeside, mainSource?_eq_some_iff.mpr hmain]
  rfl

/-- Discovery at `path` starts at a project file whose main source exists, and it takes another
program all the same. -/
def PassesOver (tree : FileTree) (path projectFile main taken : Path) : Prop :=
  (∃ programs, StartsAt tree path projectFile programs) ∧
    (∃ m, readProjectFile tree none projectFile = .ok m ∧ NamesMain tree projectFile m main) ∧
    (discover tree [] Config.default path).toOption.map (·.project.program) = some (some taken) ∧
    taken ≠ main

/-- A main source that exists is passed over for the program beside the project file under its
stem, and for any other program of the directory where discovery starts. -/
theorem discover_passesOver :
    PassesOver (suite "Runner.dpr" ["Runner.dpr", "Suite.dpr"]) "Suite.dproj" "Suite.dproj"
        "Runner.dpr" "Suite.dpr" ∧
      PassesOver (suite "tests\\Runner.dpr" ["tests/Runner.dpr", "Other.dpr"]) "." "./Suite.dproj"
        "./tests/Runner.dpr" "./Other.dpr" := by
  have hlist : (suite "tests\\Runner.dpr" ["tests/Runner.dpr", "Other.dpr"]).list "." =
      .ok (Text.ofStrings ["./Suite.dproj", "./tests", "./Other.dpr"]) := by
    decide +kernel
  have hfirst : filesWith (suite "tests\\Runner.dpr" ["tests/Runner.dpr", "Other.dpr"])
      (Text.ofStrings ["./Suite.dproj", "./tests", "./Other.dpr"]) projectFileExtension =
        [Text.ofString "./Suite.dproj"] := by
    decide +kernel
  constructor
  · exact ⟨⟨_, .file (by decide +kernel) (by decide +kernel)⟩, exists_namesMain (by decide +kernel),
      by decide +kernel, by decide +kernel⟩
  · exact ⟨⟨_, .directory hlist hfirst⟩,
      exists_namesMain (by decide +kernel), by decide +kernel, by decide +kernel⟩

end PascalSurvey.Discovery
