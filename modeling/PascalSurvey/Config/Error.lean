/-
PascalSurvey/Config/Error.lean

Why there is no configuration.
-/
import PascalSurvey.Text.Basic

namespace PascalSurvey.Config

/-- Why there is no configuration. -/
inductive Error where
  /-- The file, as its path is shown, is there and cannot be read as a text. -/
  | fileNotFound (file : Text)
  | malformed (file message : Text)
  /-- A value that makes no sense. -/
  | invalid (setting message : Text)
  deriving Repr, DecidableEq

def Error.message : Error → Text
  | .fileNotFound file => Text.ofString "Config file not found: " ++ file
  | .malformed file message =>
    Text.ofString "Config parse error in " ++ file ++ Text.ofString ": " ++ message
  | .invalid setting message =>
    Text.ofString "Config validation failed for " ++ setting ++ Text.ofString ": " ++ message

def Error.code (_ : Error) : Text := "CONFIG_ERROR"

end PascalSurvey.Config
