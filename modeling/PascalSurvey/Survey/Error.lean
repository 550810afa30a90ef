/-
PascalSurvey/Survey/Error.lean

Why a unit cannot be surveyed, and why a whole survey fails.  What concerns one unit becomes a
warning; only `SurveyError` stops a survey.
-/
import PascalSurvey.Config.Error
import PascalSurvey.Discovery.Error
import PascalSurvey.ProjectFile.Error

namespace PascalSurvey

/-- Why a unit cannot be surveyed. -/
inductive UnitError where
  | unreadable (path : Path) (cause : FileError)
  | cancelled
  | tooLarge (path : Path) (size limit : Nat)
  deriving Repr, DecidableEq

namespace UnitError

def message : UnitError → Text
  | .unreadable path cause =>
    Text.ofString "IO error scanning " ++ Path.display path ++ Text.ofString ": " ++ cause.message
  | .cancelled => "Scan cancelled"
  | .tooLarge path size limit =>
    Text.ofString "File too large: " ++ Path.display path ++ Text.ofString " (" ++
      Text.ofNat size ++ Text.ofString " bytes, max " ++ Text.ofNat limit ++ Text.ofString ")"

def code : UnitError → Text
  | .cancelled => "CANCELLED"
  | _ => "SCAN_ERROR"

/-- The warning of a survey that goes on without the unit. -/
def toWarning (e : UnitError) : Warning :=
  match e with
  | .cancelled => .plain .cancelled "scan cancelled"
  | .unreadable path _ => .about .unreadableFile path e.message
  | .tooLarge path _ _ => .about .unreadableFile path e.message

end UnitError

/-- Why a survey fails. -/
inductive SurveyError where
  | unit (e : UnitError)
  | discovery (e : Discovery.Error)
  | projectFile (e : ProjectFile.Error)
  | config (e : Config.Error)
  | cancelled
  deriving Repr, DecidableEq

namespace SurveyError

def message : SurveyError → Text
  | .unit e => Text.ofString "Scan error: " ++ e.message
  | .discovery e => Text.ofString "Resolve error: " ++ e.message
  | .projectFile e => Text.ofString "Project file error: " ++ e.message
  | .config e => Text.ofString "Configuration error: " ++ e.message
  | .cancelled => "Pipeline cancelled"

def code : SurveyError → Text
  | .unit e => e.code
  | .discovery e => e.code
  | .projectFile e => e.code
  | .config e => e.code
  | .cancelled => "CANCELLED"

end SurveyError

/-- A message with its code before it. -/
def codedMessage (code message : Text) : Text :=
  Text.ofString "[" ++ code ++ Text.ofString "] " ++ message

end PascalSurvey
