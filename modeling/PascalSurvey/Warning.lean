/-
PascalSurvey/Warning.lean

Warnings: what went wrong without stopping a survey.  A report keeps every warning as a value
and once more as the line that `display` gives.
-/
import PascalSurvey.Path

namespace PascalSurvey

/-- What a warning is about. -/
inductive Warning.Kind where
  /-- A used unit is nowhere to be found. -/
  | unresolvedUnit
  /-- A file that the project names does not exist. -/
  | missingFile
  /-- The project file could not be read; the survey goes on without it. -/
  | malformedProjectFile
  /-- A unit or form file could not be read. -/
  | unreadableFile
  /-- The text ended before the body of a routine. -/
  | unterminatedMethod
  /-- The survey of a unit broke off. -/
  | scanFailed
  /-- Work was left out because the survey was cancelled. -/
  | cancelled
  deriving Repr, DecidableEq

/-- The name of a kind. -/
def Warning.Kind.name : Warning.Kind → Text
  | .unresolvedUnit => "unresolved_unit"
  | .missingFile => "missing_file"
  | .malformedProjectFile => "malformed_project_file"
  | .unreadableFile => "unreadable_file"
  | .unterminatedMethod => "unterminated_method"
  | .scanFailed => "scan_failed"
  | .cancelled => "cancelled"

def Warning.Kind.all : List Warning.Kind :=
  [.unresolvedUnit, .missingFile, .malformedProjectFile, .unreadableFile, .unterminatedMethod,
    .scanFailed, .cancelled]

/-- A warning, and the path it is about if there is one. -/
structure Warning where
  kind : Warning.Kind
  path : Option Path
  message : Text
  deriving Repr, DecidableEq

namespace Warning

/-- A warning without a path. -/
def plain (kind : Kind) (message : Text) : Warning := ⟨kind, none, message⟩

/-- A warning about a path. -/
def about (kind : Kind) (path : Path) (message : Text) : Warning := ⟨kind, some path, message⟩

/-- The warning that a unit was not found. -/
def unresolved (unitName : Text) : Warning :=
  .plain .unresolvedUnit (Text.ofString "Unit '" ++ unitName ++
    Text.ofString "' not found in project directory or search paths")

/-- The line that shows a warning. -/
def display (w : Warning) : Text :=
  let head := Text.ofString "[" ++ w.kind.name ++ Text.ofString "] "
  match w.path with
  | some path => head ++ Path.display path ++ Text.ofString ": " ++ w.message
  | none => head ++ w.message

end Warning
end PascalSurvey
