/-
PascalSurvey/Report/Basic.lean

The report of a survey: the project with all that was found in it, the warnings and the
counts.
-/
import PascalSurvey.Project.Basic
import PascalSurvey.Warning

namespace PascalSurvey

/-- The counts of a survey. -/
structure Stats where
  /-- All units, with a file or without. -/
  unitsTotal : Nat
  unitsScanned : Nat
  /-- Units that could not be surveyed. -/
  unitsFailed : Nat
  /-- Units that were left out because the survey was cancelled. -/
  unitsSkipped : Nat
  methods : Nat
  queries : Nat
  dynamicQueries : Nat
  forms : Nat
  /-- The time that the survey took, in milliseconds, if someone took it. -/
  durationMs : Nat
  deriving Repr, DecidableEq

/-- The report of a survey. -/
structure Report where
  project : Project
  /-- The warnings of discovery first, then those of the units, in the order of the units. -/
  warnings : List Warning
  stats : Stats
  deriving Repr, DecidableEq

/-- Whether units were left out because the survey was cancelled. -/
def Report.wasCancelled (r : Report) : Bool := 0 < r.stats.unitsSkipped

end PascalSurvey
