/-
PascalSurvey/ProjectFile/Metadata.lean

What a project file says about a project.
-/
import PascalSurvey.Path

namespace PascalSurvey

namespace ProjectFile

/-- A build configuration. -/
structure Configuration where
  name : Text
  /-- The key under which other groups refer to it; empty if it has none. -/
  key : Text
  defines : List Text
  searchPaths : List Text
  outputPath : Option Text
  debug : Bool
  deriving Repr, DecidableEq

/-- A configuration of which only the name is known. -/
def Configuration.named (name : Text) : Configuration := ⟨name, [], [], [], none, false⟩

/-- A unit that the project file lists. -/
structure SourceFile where
  /-- The path as written, with slashes and variables replaced. -/
  path : Text
  unitName : Text
  /-- Whether the file exists; none if the directory is not known. -/
  found : Option Bool
  resolvedPath : Option Path
  deriving Repr, DecidableEq

/-- A form that belongs to a listed unit. -/
structure FormFile where
  unitName : Text
  formName : Text
  path : Text
  formType : Option Text
  found : Option Bool
  deriving Repr, DecidableEq

/-- All that a project file says. -/
structure Metadata where
  projectGuid : Option Text
  mainSource : Option Text
  platform : Option Text
  activeConfig : Option Text
  frameworkType : Option Text
  exeOutput : Option Text
  dcuOutput : Option Text
  configurations : List Configuration
  /-- The defines of the base and of the active configuration. -/
  defines : List Text
  /-- The search paths of the base and of the active configuration. -/
  searchPaths : List Text
  sourceFiles : List SourceFile
  formFiles : List FormFile
  resourceFiles : List Text
  packages : List Text
  deriving Repr, DecidableEq

namespace Metadata

/-- The metadata that say nothing. -/
def blank : Metadata :=
  ⟨none, none, none, none, none, none, none, [], [], [], [], [], [], []⟩

end Metadata

/-- The configuration with a name, in any case. -/
def configuration? (configurations : List Configuration) (name : Text) : Option Configuration :=
  configurations.find? fun c => Text.eqFold c.name name

/-- The configuration with the active name, or else the first. -/
def active? (configurations : List Configuration) (name : Option Text) : Option Configuration :=
  (name.bind (configuration? configurations)).or configurations.head?

def Metadata.activeConfiguration? (m : Metadata) : Option Configuration :=
  active? m.configurations m.activeConfig

end ProjectFile
end PascalSurvey
