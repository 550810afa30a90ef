/-
PascalSurvey/Project/Framework.lean

The framework of a project: what the project file says, else what the used units show, else
whether the program is a console application.
-/
import PascalSurvey.Outline.Uses
import PascalSurvey.Text.Blank

namespace PascalSurvey

/-- The frameworks a project may be built on. -/
inductive Framework where
  | vcl
  | fmx
  | console
  | unknown
  deriving Repr, DecidableEq, Inhabited

namespace Framework

def all : List Framework := [.vcl, .fmx, .console, .unknown]

/-- The name of a framework as it is shown. -/
def title : Framework → Text
  | .vcl => "VCL"
  | .fmx => "FMX"
  | .console => "Console"
  | .unknown => "Unknown"

/-- The name of a framework in a report. -/
def name (f : Framework) : Text := Text.toLower f.title

/-- The framework that a value of a project file means. -/
def ofValue? (value : Text) : Option Framework :=
  let word := Text.toLower (Text.trim value)
  if word = "vcl" then some .vcl
  else if word = "fmx" then some .fmx
  else if word = "none" ∨ word = "console" then some .console
  else none

/-- Whether a unit name lies in a namespace, in any case. -/
def isInside (space unitName : Text) : Bool :=
  (Text.afterFold? (space ++ [Ascii.dot]) unitName).isSome

/-- The framework of a project, from the value of its project file, the units its program uses
and whether the program is a console application. -/
def detect (value : Option Text) (uses : List Outline.UsesEntry) (isConsole : Bool) : Framework :=
  match value.bind ofValue? with
  | some f => f
  | none =>
    if uses.any fun u => isInside "Vcl" u.name || Text.eqFold u.name "Forms" then .vcl
    else if uses.any fun u => isInside "FMX" u.name then .fmx
    else if isConsole then .console
    else .unknown

end Framework
end PascalSurvey
