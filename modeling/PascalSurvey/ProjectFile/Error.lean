/-
PascalSurvey/ProjectFile/Error.lean

Why a project file cannot be used.
-/
import PascalSurvey.Warning
import PascalSurvey.Xml.Error

namespace PascalSurvey.ProjectFile

/-- Why a project file cannot be used. -/
inductive Error where
  | malformedXml (position : Nat) (message : Text)
  | missingRoot
  | empty
  deriving Repr, DecidableEq

def Error.message : Error → Text
  | .malformedXml position message =>
    Text.ofString "Malformed project file XML at byte " ++ Text.ofNat position ++
      Text.ofString ": " ++ message
  | .missingRoot => "Project file has no <Project> root element"
  | .empty => "Project file is empty"

def Error.code (_ : Error) : Text := "PROJECT_FILE_ERROR"

/-- The warning of a survey that goes on without the project file. -/
def Error.toWarning (e : Error) : Warning := .plain .malformedProjectFile e.message

end PascalSurvey.ProjectFile
