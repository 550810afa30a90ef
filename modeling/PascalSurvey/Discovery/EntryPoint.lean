/-
PascalSurvey/Discovery/EntryPoint.lean

Where a survey starts.  A program and its project file belong together when they lie side by
side under one name.  In a directory the first project file decides, else the first program,
and a directory with neither stands for all units in and below it.
-/
import PascalSurvey.Discovery.Error

namespace PascalSurvey

/-- Where a survey starts. -/
inductive EntryPoint where
  /-- A program, a project file, or both. -/
  | program (program projectFile : Option Path)
  /-- The units in and below a directory. -/
  | folder (root : Path) (units : List Path)
  deriving Repr, DecidableEq

/-- The directory of a program or, without one, of a project file. -/
def rootOf (program projectFile : Option Path) : Path :=
  ((program.or projectFile).bind Path.parent?).getD []

def EntryPoint.root : EntryPoint → Path
  | .program p f => rootOf p f
  | .folder dir _ => dir

namespace Discovery

/-- The extension of a path in lower case; empty if there is none. -/
def extensionOf (p : Path) : Text := Text.toLower ((Path.extensionText? p).getD [])

def programExtension : Text := "dpr"
def projectFileExtension : Text := "dproj"

/-- Whether a file has a stem, in any case, and an extension. -/
def isNamed (tree : FileTree) (stem extension : Text) (p : Path) : Bool :=
  tree.isFile p && extensionOf p == extension && (Path.stemText? p).any (Text.eqFold · stem)

/-- The file beside a path that has the same stem, in any case, and an extension; one with the
very same stem comes first. -/
def sibling? (tree : FileTree) (p : Path) (extension : Text) : Option Path :=
  match Path.stemText? p, Path.parent? p with
  | some stem, some dir =>
    let exact := Path.join dir (stem ++ Ascii.dot :: extension)
    if tree.isFile exact then some exact
    else match tree.list dir with
      | .error _ => none
      | .ok entries => entries.find? (isNamed tree stem extension)
  | _, _ => none

/-- The unit files in and below a directory, in order.  Include files are no units. -/
def collectUnits (tree : FileTree) (root : Path) (extensions : List Text) : List Path :=
  let wanted := (extensions.map fun e => Text.toLower (e.dropWhile (· == Ascii.dot))).filter
    (· != Text.ofString "inc")
  Path.sort ((tree.walk root).filter fun p => wanted.any (· == extensionOf p))

/-- The files of a directory with an extension, in order. -/
def filesWith (tree : FileTree) (entries : List Path) (extension : Text) : List Path :=
  Path.sort (entries.filter fun e => tree.isFile e && extensionOf e == extension)

/-- Where the survey of a directory starts. -/
def locateIn (tree : FileTree) (dir : Path) (entries extensions : List Text) :
    Except Error EntryPoint :=
  let programs := filesWith tree entries programExtension
  match filesWith tree entries projectFileExtension with
  | projectFile :: _ =>
    let program := (sibling? tree projectFile programExtension).or programs.head?
    .ok (.program program (some projectFile))
  | [] => match programs with
    | program :: _ =>
      .ok (.program (some program) (sibling? tree program projectFileExtension))
    | [] =>
      let units := collectUnits tree dir extensions
      if units.isEmpty then .error (.entryPointNotFound dir) else .ok (.folder dir units)

/-- Where the survey of a path starts. -/
def locate (tree : FileTree) (path : Path) (extensions : List Text) : Except Error EntryPoint :=
  if !tree.exists? path then .error (.pathNotFound path)
  else if tree.isFile path then
    if extensionOf path = projectFileExtension then
      .ok (.program (sibling? tree path programExtension) (some path))
    else if extensionOf path = programExtension then
      .ok (.program (some path) (sibling? tree path projectFileExtension))
    else .error (.unsupportedInput path)
  else match tree.list path with
    | .error e => .error (.unreadable path e)
    | .ok entries => locateIn tree path entries extensions

end Discovery
end PascalSurvey
