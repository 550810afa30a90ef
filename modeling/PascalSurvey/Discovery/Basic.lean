/-
PascalSurvey/Discovery/Basic.lean

Finding a project: from a path to the units of the project at that path.  A unit that is
named and not found, and a project file that cannot be read, are warnings; the project is
found all the same.
-/
import PascalSurvey.Config.Load
import PascalSurvey.Discovery.EntryPoint
import PascalSurvey.Discovery.SearchPath
import PascalSurvey.Discovery.SystemUnit
import PascalSurvey.Outline.Basic
import PascalSurvey.Program
import PascalSurvey.Project.Basic
import PascalSurvey.ProjectFile.Reader

namespace PascalSurvey.Discovery

/-- A project with the warnings about it. -/
structure Resolution where
  project : Project
  warnings : List Warning
  deriving Repr, DecidableEq

/-! ### Form files -/

/-- The extensions of form files, in the order in which they are tried. -/
def formExtensions : List Text := ["dfm", "fmx"]

/-- A unit with the form file that lies beside it. -/
def attachForm (tree : FileTree) (u : SourceUnit) : SourceUnit :=
  match u.formFile, u.file with
  | none, some file =>
    { u with formFile := (formExtensions.map (Path.withExtension file)).find? tree.isFile }
  | _, _ => u

/-! ### Folders -/

/-- The project of all units of a folder. -/
def ofFolder (tree : FileTree) (root : Path) (files : List Path) : Project :=
  files.foldl (fun p file =>
    p.addUnit (attachForm tree (.withFile ((Path.stemText? file).getD []) file root)))
    (.empty root ((Path.nameText? root).getD []))

/-! ### Project files -/

/-- The metadata of a project file, or the warning that there are none. -/
def readProjectFile (tree : FileTree) (bds : Option Text) (path : Path) :
    Except Warning ProjectFile.Metadata :=
  match tree.read path with
  | .error e => .error (.about .unreadableFile path e.message)
  | .ok bytes =>
    match ProjectFile.read tree { ProjectFile.Surroundings.ofFile path with bds }
        (Utf8.lossy bytes) with
    | .ok m => .ok m
    | .error e => .error { e.toWarning with path := some path }

/-- The program that a project file names as its main source, if the file exists. -/
def mainSource? (tree : FileTree) (projectFile : Path) (m : ProjectFile.Metadata) : Option Path := do
  let dir ← Path.parent? projectFile
  let main ← m.mainSource
  let path := Path.join dir (Text.forwardSlashes main)
  if tree.isFile path then some path else none

/-! ### References -/

/-- The unit that an entry of the program's `uses` clause names, with a warning if it is not
found.  The declared path counts first, then the search paths. -/
def ofUses (tree : FileTree) (extensions : List Text) (root : Path) (dirs : List Path)
    (entry : Outline.UsesEntry) : SourceUnit × Option Warning :=
  let declared := entry.inPath.map (Path.join root)
  match (declared.filter tree.isFile).or (findFile? tree extensions dirs entry.name) with
  | some file => ({ SourceUnit.withFile entry.name file root with inEntryPoint := true }, none)
  | none =>
    let warning := match declared with
      | some file => Warning.about .missingFile file (Text.ofString "Unit '" ++ entry.name ++
          Text.ofString "' not found at its declared location")
      | none => Warning.unresolved entry.name
    ({ SourceUnit.named entry.name with inEntryPoint := true }, some warning)

/-- The unit that a project file lists, with a warning if it is not found. -/
def ofSource (tree : FileTree) (root : Path) (source : ProjectFile.SourceFile) :
    SourceUnit × Option Warning :=
  match source.resolvedPath.filter tree.isFile with
  | some file =>
    ({ SourceUnit.withFile source.unitName file root with fromProjectFile := true }, none)
  | none =>
    ({ SourceUnit.named source.unitName with fromProjectFile := true },
      some (.about .missingFile (Path.join root source.path) (Text.ofString "Unit '" ++
        source.unitName ++ Text.ofString "' listed in the project file was not found")))

/-- A resolution with a unit and the warning about it added, unless there is a unit of that
name. -/
def Resolution.add (r : Resolution) (found : SourceUnit × Option Warning) : Resolution :=
  if r.project.hasUnit found.1.name then r
  else ⟨r.project.addUnit found.1, r.warnings ++ found.2.toList⟩

/-- Whether an entry of the `uses` clause is left to the libraries. -/
def isForeign (extra : List Text) (entry : Outline.UsesEntry) : Bool :=
  entry.inPath.isNone && isSystemUnit entry.name extra

/-! ### Programs -/

/-- What the text of a program says: the unit of the program itself, its `uses` entries and
whether it is a console application. -/
structure ProgramFacts where
  unit : Option SourceUnit
  uses : List Outline.UsesEntry
  isConsole : Bool
  deriving Repr, DecidableEq

/-- Reads a program. -/
def readProgram (tree : FileTree) (root program : Path) : ProgramFacts × Option Warning :=
  match tree.read program with
  | .error e => (⟨none, [], false⟩, some (.about .unreadableFile program e.message))
  | .ok bytes =>
    let t := Utf8.lossy bytes
    let name := (Outline.ofText t program).name
    (⟨some { SourceUnit.withFile name program root with size := bytes.length },
      Program.uses t, Program.isConsole t⟩, none)

/-- The project of a program and its project file, either of which may be missing. -/
def ofProgram (tree : FileTree) (env : Environment) (c : Config)
    (program projectFile : Option Path) : Resolution :=
  let reading := projectFile.map (readProjectFile tree (env.get? "BDS"))
  let (metadata, fileWarnings) : Option ProjectFile.Metadata × List Warning := match reading with
    | some (.ok m) => (some m, [])
    | some (.error w) => (none, [w])
    | none => (none, [])
  let program := program.or do mainSource? tree (← projectFile) (← metadata)
  let root := rootOf program projectFile
  let name := ((program.or projectFile).bind Path.stemText?).getD []
  let start : Project := { Project.empty root name with program, projectFile }
  let start := ((metadata.map (·.searchPaths)).getD []).foldl Project.addSearchPath start
  let start := ((metadata.map (·.defines)).getD []).foldl Project.addDefine start
  let dirs := searchDirectories root start.searchPaths
  let (facts, programWarning) := match program with
    | some path => readProgram tree root path
    | none => (⟨none, [], false⟩, none)
  let start := facts.unit.toList.foldl Project.addUnit start
  let listed := facts.uses.filter fun entry => !isForeign c.scan.extraSystemPrefixes entry
  let found := listed.map (ofUses tree c.extensions root dirs) ++
    ((metadata.map (·.sourceFiles)).getD []).map (ofSource tree root)
  let resolution := found.foldl Resolution.add ⟨start, fileWarnings ++ programWarning.toList⟩
  { resolution with project := { resolution.project with
      units := resolution.project.units.map (attachForm tree)
      framework := .detect (metadata.bind (·.frameworkType)) facts.uses facts.isConsole
      metadata } }

/-! ### The project at a path -/

/-- A resolution whose project shows the warnings. -/
def Resolution.withLines (r : Resolution) : Resolution :=
  { r with project := { r.project with warnings := r.warnings.map Warning.display } }

/-- The project at a path. -/
def discover (tree : FileTree) (env : Environment) (c : Config) (path : Path) :
    Except Error Resolution := do
  match ← locate tree path c.extensions with
  | .folder root units => .ok (Resolution.withLines ⟨ofFolder tree root units, []⟩)
  | .program program projectFile =>
    .ok (Resolution.withLines (ofProgram tree env c program projectFile))

end PascalSurvey.Discovery
