/-
PascalSurvey/ProjectFile/Settings.lean

The settings of property groups and how they come together.  Settings without a condition,
and those for `Base`, form the base; settings for a key go to the configuration with that
key.  In all lists the first of two items that are equal in any case stays.
-/
import PascalSurvey.ProjectFile.Condition
import PascalSurvey.ProjectFile.Metadata
import PascalSurvey.Xml.Element

namespace PascalSurvey.ProjectFile

open Ascii
open Xml (Element Name)

/-- The namespace of project files. -/
def msbuildSpace : Text := "http://schemas.microsoft.com/developer/msbuild/2003"

/-- An element name of project files: in their namespace first, then without one. -/
def msbuild (name : Text) : List Name := [.qualified msbuildSpace name, .plain name]

/-- The text of a child by its name. -/
def child? (e : Element) (name : Text) : Option Text := e.childValue? (msbuild name)

/-! ### Settings of one group -/

/-- The settings of a property group. -/
structure Settings where
  defines : List Text
  searchPaths : List Text
  outputPath : Option Text
  optimize : Option Bool
  deriving Repr, DecidableEq

def Settings.none : Settings := ⟨[], [], Option.none, Option.none⟩

/-- The items of a list between semicolons, with slashes, without blank ones and without the
reference of the property to itself. -/
def splitList (value property : Text) : List Text :=
  let self := Text.ofString "$(" ++ property ++ [rparen]
  let items := ((Text.split semicolon value).map Text.trim).filter fun item =>
    !(item.isEmpty || Text.eqFold item self)
  Text.dedupFold (items.map Text.forwardSlashes)

/-- The items of a list that a child holds. -/
def childList (group : Element) (property : Text) : List Text :=
  ((child? group property).map (splitList · property)).getD []

/-- The settings of a property group. -/
def Settings.ofGroup (group : Element) : Settings where
  defines := childList group "DCC_Define"
  searchPaths := childList group "DCC_UnitSearchPath"
  outputPath :=
    ((child? group "DCC_ExeOutput").or (child? group "DCC_DcuOutput")).map Text.forwardSlashes
  optimize := (child? group "DCC_Optimize").map (Text.eqFold · "true")

/-- Settings with further ones added; what is there already stays. -/
def Settings.merge (s more : Settings) : Settings where
  defines := more.defines.foldl Text.pushUnique s.defines
  searchPaths := more.searchPaths.foldl Text.pushUnique s.searchPaths
  outputPath := s.outputPath.or more.outputPath
  optimize := s.optimize.or more.optimize

/-- A configuration with settings added.  Switching optimisation off makes it one for
debugging. -/
def Configuration.apply (c : Configuration) (s : Settings) : Configuration :=
  { c with
    defines := s.defines.foldl Text.pushUnique c.defines
    searchPaths := s.searchPaths.foldl Text.pushUnique c.searchPaths
    outputPath := c.outputPath.or s.outputPath
    debug := c.debug || s.optimize == some false }

/-! ### All groups -/

/-- The condition of a group. -/
def condition? (group : Element) : Option Text := group.attribute? "Condition"

/-- What a group with a condition is for. -/
inductive Role where
  /-- It declares a configuration. -/
  | declaration (c : Configuration)
  /-- It holds settings for a key. -/
  | keyed (key : Text) (s : Settings)
  | other
  deriving Repr, DecidableEq

/-- What a group with a condition is for.  The key of a declared configuration is the name of
the first child that is a key, or the key for which the condition announces settings. -/
def Role.ofGroup (group : Element) : Role :=
  let condition := (condition? group).getD []
  match declares? condition with
  | some name =>
    let key := ((group.children.map (·.name)).find? isCfgKey).or
      ((settingsFor? condition).filter (· != Text.ofString "Base"))
    .declaration ({ Configuration.named name with key := key.getD [] }.apply (.ofGroup group))
  | none => match settingsFor? condition with
    | some key => .keyed key (.ofGroup group)
    | none => .other

/-- The declared configurations; a name that is declared again does not count. -/
def declaredConfigurations (roles : List Role) : List Configuration :=
  roles.foldl (fun cs role => match role with
    | .declaration c => if (configuration? cs c.name).isSome then cs else cs ++ [c]
    | _ => cs) []

/-- Applies settings to the first configuration with the given key. -/
def applyKeyed (key : Text) (s : Settings) : List Configuration → List Configuration
  | [] => []
  | c :: cs => if !c.key.isEmpty && c.key == key then c.apply s :: cs else c :: applyKeyed key s cs

/-- The settings for keys, in order. -/
def keyedSettings (roles : List Role) : List (Text × Settings) :=
  roles.filterMap fun
    | .keyed key s => some (key, s)
    | _ => none

/-- The base settings: those of groups without a condition, then those for `Base`. -/
def baseSettings (plain : List Element) (roles : List Role) : Settings :=
  let forBase := (keyedSettings roles).filter fun (key, _) => key == Text.ofString "Base"
  (plain.map Settings.ofGroup ++ forBase.map (·.2)).foldl Settings.merge .none

/-- The configurations of a project file that declares none. -/
def defaultConfigurations : List Configuration :=
  [{ Configuration.named "Debug" with debug := true }, Configuration.named "Release"]

/-- A configuration is for debugging if its name or one of its defines says so. -/
def markDebug (c : Configuration) : Configuration :=
  { c with debug :=
      c.debug || Text.eqFold c.name "Debug" || c.defines.any (Text.eqFold · "DEBUG") }

/-- The configurations with all their settings. -/
def configurations (roles : List Role) : List Configuration :=
  let keyed := (keyedSettings roles).filter fun (key, _) => key != Text.ofString "Base"
  let declared := keyed.foldl (fun cs (key, s) => applyKeyed key s cs)
    (declaredConfigurations roles)
  (if declared.isEmpty then defaultConfigurations else declared).map markDebug

end PascalSurvey.ProjectFile
