/-
PascalSurvey/ProjectFile/Variable.lean

Variables `$(Name)` in the values of a project file.  Known ones are replaced, in any case of
their name; unknown ones stay as they are.
-/
import PascalSurvey.ProjectFile.Metadata
import PascalSurvey.Text.WordChar

namespace PascalSurvey.ProjectFile

open Ascii

/-- What is known about a project file from outside. -/
structure Surroundings where
  /-- The directory of the project file. -/
  directory : Option Path
  projectName : Option Text
  /-- The directory of the development tools. -/
  bds : Option Text
  deriving Repr, DecidableEq

/-- The surroundings of a file. -/
def Surroundings.ofFile (file : Path) : Surroundings :=
  ⟨Path.parent? file, Path.stemText? file, none⟩

/-- The variable at the head of a text: its name and the length of the whole. -/
def variableAt? (t : Text) : Option (Text × Nat) := do
  let r ← Text.after? "$(" t
  let n ← Text.ident? r
  if (r.drop n).head? = some rparen then some (r.take n, n + 3) else none

/-- A text with the known variables replaced. -/
def substitute (vars : List (Text × Text)) : Text → Text
  | [] => []
  | b :: r => match variableAt? (b :: r) with
    | some (name, n) =>
      let value := (vars.find? fun (k, _) => Text.eqFold k name).map (·.2)
      value.getD (b :: r.take (n - 1)) ++ substitute vars (r.drop (n - 1))
    | none => b :: substitute vars r
termination_by t => t.length
decreasing_by all_goals simp only [List.length_drop, List.length_cons]; omega

/-- The variables of a project file. -/
def knownVariables (platform active : Option Text) (s : Surroundings) : List (Text × Text) :=
  [(Text.ofString "Platform", platform.getD "Win32")] ++
  (match active with
    | some c => [(Text.ofString "Config", c), (Text.ofString "Configuration", c)]
    | none => []) ++
  (match s.directory with
    | some dir =>
      let dir := Text.forwardSlashes (Path.display dir)
      [(Text.ofString "ProjectDir", dir ++ [slash]),
        (Text.ofString "MSBuildProjectDirectory", dir)]
    | none => []) ++
  (match s.projectName with
    | some name => [(Text.ofString "ProjectName", name), (Text.ofString "MSBuildProjectName", name)]
    | none => []) ++
  (match s.bds with
    | some bds => [(Text.ofString "BDS", bds)]
    | none => [])

end PascalSurvey.ProjectFile
