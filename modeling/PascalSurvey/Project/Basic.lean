/-
PascalSurvey/Project/Basic.lean

Projects and their units.  Discovery makes them, and a survey fills in what the texts say.
The names of the units of a project differ when letter case is ignored: `addUnit` keeps the
first unit of a name.
-/
import PascalSurvey.Form
import PascalSurvey.Outline.TypeDecl
import PascalSurvey.Project.Framework
import PascalSurvey.ProjectFile.Metadata
import PascalSurvey.Routine.Method
import PascalSurvey.Sql.Query

namespace PascalSurvey

/-! ### Units -/

/-- A unit of a project. -/
structure SourceUnit where
  name : Text
  /-- The file of the unit; none if the unit is named somewhere and was not found. -/
  file : Option Path
  /-- The file as seen from the root of the project. -/
  relativePath : Option Text
  size : Nat
  lineCount : Nat
  isForm : Bool
  isDataModule : Bool
  /-- Whether only the project file names the unit. -/
  fromProjectFile : Bool
  /-- Whether the program uses the unit. -/
  inEntryPoint : Bool
  formFile : Option Path
  interfaceUses : List Text
  implementationUses : List Text
  types : List Outline.TypeDecl
  methods : List Routine.Method
  queries : List Sql.Query
  deriving Repr, DecidableEq

namespace SourceUnit

/-- A unit of which only the name is known. -/
def named (name : Text) : SourceUnit :=
  ⟨name, none, none, 0, 0, false, false, false, false, none, [], [], [], [], []⟩

/-- A unit with its file. -/
def withFile (name : Text) (file root : Path) : SourceUnit :=
  { named name with file := some file, relativePath := Path.relativeTo? file root }

def hasFile (u : SourceUnit) : Bool := u.file.isSome

/-- The names of all used units. -/
def dependencies (u : SourceUnit) : List Text := u.interfaceUses ++ u.implementationUses

end SourceUnit

/-! ### Projects -/

/-- A project. -/
structure Project where
  root : Path
  program : Option Path
  projectFile : Option Path
  name : Text
  framework : Framework
  searchPaths : List Text
  defines : List Text
  units : List SourceUnit
  forms : List Form
  /-- The lines that show the warnings. -/
  warnings : List Text
  metadata : Option ProjectFile.Metadata
  deriving Repr, DecidableEq

namespace Project

/-- A project without units. -/
def empty (root : Path) (name : Text) : Project :=
  ⟨root, none, none, name, .unknown, [], [], [], [], [], none⟩

/-- The unit with a name, in any case. -/
def findUnit? (p : Project) (name : Text) : Option SourceUnit :=
  p.units.find? fun u => Text.eqFold u.name name

def hasUnit (p : Project) (name : Text) : Bool := (p.findUnit? name).isSome

/-- The project with a unit added, unless it has one of that name. -/
def addUnit (p : Project) (u : SourceUnit) : Project :=
  if p.hasUnit u.name then p else { p with units := p.units ++ [u] }

/-- The project with a define added, unless it is blank or there in any case. -/
def addDefine (p : Project) (define : Text) : Project :=
  let define := Text.trim define
  if define.isEmpty then p else { p with defines := Text.pushUnique p.defines define }

/-- The project with a search path added, unless it is blank or there already. -/
def addSearchPath (p : Project) (path : Text) : Project :=
  let path := Text.trim path
  if path.isEmpty || p.searchPaths.any (· == path) then p
  else { p with searchPaths := p.searchPaths ++ [path] }

def methodCount (p : Project) : Nat := (p.units.flatMap (·.methods)).length

def queryCount (p : Project) : Nat := (p.units.flatMap (·.queries)).length

end Project
end PascalSurvey
