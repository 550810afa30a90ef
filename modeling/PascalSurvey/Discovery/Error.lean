/-
PascalSurvey/Discovery/Error.lean

Why no project can be found at a path.
-/
import PascalSurvey.FileTree

namespace PascalSurvey.Discovery

/-- Why no project can be found at a path. -/
inductive Error where
  | pathNotFound (path : Path)
  /-- Neither a program, nor a project file, nor a directory. -/
  | unsupportedInput (path : Path)
  /-- A directory without a program and without units. -/
  | entryPointNotFound (path : Path)
  | unreadable (path : Path) (cause : FileError)
  deriving Repr, DecidableEq

def Error.message : Error → Text
  | .pathNotFound path => Text.ofString "Path does not exist: " ++ Path.display path
  | .unsupportedInput path =>
    Text.ofString "Unsupported input " ++ Path.display path ++
      Text.ofString ": expected a .dpr, .dproj or directory"
  | .entryPointNotFound path =>
    Text.ofString "No project entry point or Pascal units under " ++ Path.display path
  | .unreadable path cause =>
    Text.ofString "IO error resolving " ++ Path.display path ++ Text.ofString ": " ++
      cause.message

def Error.code : Error → Text
  | .entryPointNotFound _ => "ENTRY_POINT_NOT_FOUND"
  | _ => "RESOLVE_ERROR"

end PascalSurvey.Discovery
