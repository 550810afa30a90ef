/-
PascalSurvey/ProjectFile/Condition.lean

The conditions of property groups.  A condition compares a variable with a constant:
`'$(Config)'=='Debug'` declares a configuration, and `'$(Cfg_2)'!=''` says that the group holds
settings for the configuration with that key.
-/
import PascalSurvey.Text.Blank
import PascalSurvey.Text.WordChar

namespace PascalSurvey.ProjectFile

open Ascii

/-- A comparison in a condition. -/
structure Comparison where
  variableName : Text
  /-- Whether the two sides are said to be equal; otherwise they are said to differ. -/
  isEqual : Bool
  value : Text
  deriving Repr, DecidableEq

/-- Whether a text is an underscore and at least one word character. -/
def isPlatformTail (t : Text) : Bool :=
  match t with
  | underscore :: r => !r.isEmpty && Text.wordRun r == r.length
  | _ => false

/-- Whether a name belongs to a configuration: `Config`, `Configuration`, `Base` or `Cfg_` with
digits, the last two also with a platform behind. -/
def isConfigurationVariable (name : Text) : Bool :=
  name == "Config" || name == "Configuration" ||
  (match Text.after? "Base" name with
    | some rest => rest.isEmpty || isPlatformTail rest
    | none => false) ||
  match Text.after? "Cfg_" name with
  | some rest =>
    let n := Utf8.run isDecimalDigit rest
    n != 0 && ((rest.drop n).isEmpty || isPlatformTail (rest.drop n))
  | none => false

/-- The comparison at the head of a text and its length. -/
def comparisonAt? (t : Text) : Option (Comparison × Nat) := do
  let r ← Text.after? "'$(" t
  let (name, r) ← Text.cut? rparen r
  let r := (Text.after? "|$(Platform)" r).getD r
  let r ← Text.after? "'" r
  let r := Text.trimStart r
  let (isEqual, r) ← match Text.after? "==" r with
    | some r => some (true, r)
    | none => (Text.after? "!=" r).map (false, ·)
  let r ← Text.after? "'" (Text.trimStart r)
  let (value, r) ← Text.cut? quote r
  if isConfigurationVariable name then some (⟨name, isEqual, value⟩, t.length - r.length) else none

/-- The comparisons of a condition. -/
def comparisons : Text → List Comparison
  | [] => []
  | b :: r => match comparisonAt? (b :: r) with
    | some (c, n) => c :: comparisons (r.drop (n - 1))
    | none => comparisons r
termination_by t => t.length
decreasing_by all_goals simp only [List.length_drop, List.length_cons]; omega

/-- The key to which a variable belongs: `Cfg_2_Win32` belongs to `Cfg_2`. -/
def configKey (name : Text) : Text :=
  match Text.after? "Cfg_" name with
  | some rest => Text.ofString "Cfg_" ++ rest.takeWhile isDigit
  | none => if Text.startsWith name "Base" then "Base" else name

/-- Whether a name is the key of a configuration. -/
def isCfgKey (name : Text) : Bool :=
  match Text.after? "Cfg_" name with
  | some digits => !digits.isEmpty && digits.all isDigit
  | none => false

/-- The configuration that a comparison declares. -/
def Comparison.declares? (c : Comparison) : Option Text :=
  if c.isEqual && Text.startsWith c.variableName "Config" then
    let name := Text.trim (c.value.takeWhile (· != bar))
    if name.isEmpty || Text.eqFold name "Base" then none else some name
  else none

/-- The key for which a comparison announces settings. -/
def Comparison.settingsFor? (c : Comparison) : Option Text :=
  if !c.isEqual && c.value.isEmpty then some (configKey c.variableName) else none

/-- The configuration that a condition declares; the last comparison that declares one
counts. -/
def declares? (condition : Text) : Option Text :=
  ((comparisons condition).filterMap Comparison.declares?).getLast?

/-- The key for which a condition announces settings; the first comparison counts. -/
def settingsFor? (condition : Text) : Option Text :=
  (comparisons condition).findSome? Comparison.settingsFor?

end PascalSurvey.ProjectFile
