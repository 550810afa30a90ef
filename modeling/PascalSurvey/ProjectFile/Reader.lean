/-
PascalSurvey/ProjectFile/Reader.lean

Reading project files.  `ofTree` takes the metadata from an element tree, and `read` from the
text of the file.
-/
import PascalSurvey.FileTree
import PascalSurvey.ProjectFile.Error
import PascalSurvey.ProjectFile.Settings
import PascalSurvey.ProjectFile.Variable
import PascalSurvey.Xml.Event

namespace PascalSurvey.ProjectFile

open Ascii
open Xml (Element)

/-- The error that an unusable document is. -/
def Error.ofDocument : Xml.DocumentError → Error
  | .malformed position e => .malformedXml position e.message
  | .missingRoot => .missingRoot
  | .empty => .empty

/-! ### File names in project files -/

/-- The file name of a path with slashes. -/
def baseName (path : Text) : Text :=
  match Text.cutLast? slash path with
  | some (_, name) => name
  | none => path

/-- The file name without its extension. -/
def stemOf (path : Text) : Text := (Path.splitName (baseName path)).1

/-- A path with another extension, or with an extension added. -/
def replaceExtension (path extension : Text) : Text :=
  let name := baseName path
  path.take (path.length - name.length + (Path.splitName name).1.length) ++ dot :: extension

/-! ### Items -/

/-- What the items of a project file list. -/
structure Items where
  sources : List SourceFile
  forms : List FormFile
  resources : List Text
  packages : List Text
  deriving Repr, DecidableEq

/-- The form of a listed unit. -/
def formOf? (tree : FileTree) (s : Surroundings) (reference : Element) (path : Text) :
    Option FormFile :=
  (child? reference "Form").map fun formName =>
    let formType := child? reference "FormType"
    let formPath := replaceExtension path (formType.getD "dfm")
    { unitName := stemOf path
      formName
      path := formPath
      formType
      found := s.directory.map fun dir => tree.isFile (Path.join dir formPath) }

/-- Adds a reference to a unit or to a package. -/
def Items.addReference (tree : FileTree) (s : Surroundings) (subst : Text → Text) (items : Items)
    (reference : Element) : Items :=
  match reference.attribute? "Include" with
  | none => items
  | some include_ =>
    let path := Text.forwardSlashes (subst include_)
    if Text.endsWith (Text.toLower path) ".dcp" then
      { items with packages := Text.pushUnique items.packages (stemOf path) }
    else
      let resolvedPath := s.directory.map fun dir => Path.join dir path
      { items with
        sources := items.sources ++ [{
          path
          unitName := stemOf path
          found := resolvedPath.map tree.isFile
          resolvedPath }]
        forms := items.forms ++ (formOf? tree s reference path).toList }

/-- The values of the `Include` attributes of the children with a name. -/
def includes (group : Element) (name : Text) : List Text :=
  (group.all (msbuild name)).filterMap (·.attribute? "Include")

/-- Adds the items of one group. -/
def Items.addGroup (tree : FileTree) (s : Surroundings) (subst : Text → Text) (items : Items)
    (group : Element) : Items :=
  let items := (group.all (msbuild "DCCReference")).foldl (addReference tree s subst) items
  let resources := (includes group "RcItem" ++ includes group "RCResource").map fun path =>
    Text.forwardSlashes (subst path)
  let packages := (includes group "PackageReference").map Text.trim
  { items with
    resources := resources.foldl Text.pushUnique items.resources
    packages := packages.foldl Text.pushUnique items.packages }

/-! ### Metadata -/

/-- The first value of a property, in groups without a condition before others. -/
def scalar? (groups : List Element) (name : Text) : Option Text :=
  groups.findSome? fun g => child? g name

/-- The metadata of an element tree. -/
def ofTree (tree : FileTree) (s : Surroundings) (root : Element) : Except Error Metadata :=
  if !Text.eqFold root.name "Project" then .error .missingRoot
  else
    let (plain, conditioned) :=
      (root.all (msbuild "PropertyGroup")).partition fun g => (condition? g).isNone
    let groups := plain ++ conditioned
    let scalar := scalar? groups
    let platform := scalar "Platform"
    let activeConfig := (scalar "Config").or (scalar "Configuration")
    let roles := conditioned.map Role.ofGroup
    let base := baseSettings plain roles
    let configs := configurations roles
    let active := active? configs activeConfig
    let subst := substitute (knownVariables platform (active.map (·.name)) s)
    let active := active.getD (.named [])
    let output := fun path => Text.forwardSlashes (subst path)
    let items := (root.all (msbuild "ItemGroup")).foldl (Items.addGroup tree s subst)
      ⟨[], [], [], []⟩
    let used := groups.flatMap fun g => childList g "DCC_UsePackage"
    .ok {
      projectGuid := scalar "ProjectGuid"
      mainSource := scalar "MainSource"
      platform
      activeConfig
      frameworkType := scalar "FrameworkType"
      exeOutput := ((scalar "DCC_ExeOutput").or active.outputPath).map output
      dcuOutput := (scalar "DCC_DcuOutput").map output
      configurations := configs.map fun c =>
        { c with searchPaths := c.searchPaths.map subst, outputPath := c.outputPath.map subst }
      defines := Text.dedupFold (base.defines ++ active.defines)
      searchPaths := (Text.dedupFold (base.searchPaths ++ active.searchPaths)).map subst
      sourceFiles := items.sources
      formFiles := items.forms
      resourceFiles := items.resources
      packages := used.foldl Text.pushUnique items.packages }

/-- The metadata of the text of a project file. -/
def read (tree : FileTree) (s : Surroundings) (t : Text) : Except Error Metadata :=
  match Xml.parse t with
  | .ok root => ofTree tree s root
  | .error e => .error (.ofDocument e)

end PascalSurvey.ProjectFile
