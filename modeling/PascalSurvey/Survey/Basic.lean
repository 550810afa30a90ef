/-
PascalSurvey/Survey/Basic.lean

The survey of a project.  Every unit has an outcome, and the report puts the outcomes
together in the order of the units.  A unit with a file asks, before it is surveyed, whether
the survey has been cancelled; one that is left out, like one that fails, stays as discovery
left it.
-/
import PascalSurvey.Cancellation
import PascalSurvey.Discovery.Basic
import PascalSurvey.Report.Basic
import PascalSurvey.Survey.Unit

namespace PascalSurvey.Survey

/-- What became of a unit. -/
inductive Outcome where
  | surveyed (facts : UnitFacts)
  | failed (unit : SourceUnit) (warning : Warning)
  /-- Left out because the survey was cancelled. -/
  | skipped (unit : SourceUnit)
  /-- Never found; discovery has warned about it. -/
  | noFile (unit : SourceUnit)
  deriving Repr, DecidableEq

namespace Outcome

/-- The unit after the survey. -/
def unit : Outcome → SourceUnit
  | .surveyed facts => facts.unit
  | .failed u _ => u
  | .skipped u => u
  | .noFile u => u

def warnings : Outcome → List Warning
  | .surveyed facts => facts.warnings
  | .failed _ w => [w]
  | .skipped _ => []
  | .noFile _ => []

def form? : Outcome → Option Form
  | .surveyed facts => facts.form
  | _ => none

def isSurveyed : Outcome → Bool
  | .surveyed _ => true
  | _ => false

def isFailed : Outcome → Bool
  | .failed _ _ => true
  | _ => false

def isSkipped : Outcome → Bool
  | .skipped _ => true
  | _ => false

end Outcome

/-! ### Outcomes -/

/-- The outcome of one unit, given the answer to its question. -/
def outcome (survey : SourceUnit → Except Warning UnitFacts) (stop : Bool) (u : SourceUnit) :
    Outcome :=
  if !u.hasFile then .noFile u
  else if stop then .skipped u
  else match survey u with
    | .ok facts => .surveyed facts
    | .error w => .failed u w

/-- The outcomes of units.  Only a unit with a file asks, so only such a unit takes an answer. -/
def outcomes (survey : SourceUnit → Except Warning UnitFacts) (stop : Cancellation) :
    List SourceUnit → List Outcome
  | [] => []
  | u :: rest =>
    outcome survey stop.stops u ::
      outcomes survey (if u.hasFile then stop.skip 1 else stop) rest

/-- How many questions the survey of a project asks. -/
def questions (p : Project) : Nat := p.units.countP (·.hasFile)

/-! ### The report -/

/-- The warning that units were left out. -/
def cancelledWarning (skipped : Nat) : Warning :=
  .plain .cancelled (Text.ofString "scan cancelled, " ++ Text.ofNat skipped ++
    Text.ofString " units not scanned")

/-- The warnings of the outcomes of a survey, the one about left out units last. -/
def warningsOf (os : List Outcome) : List Warning :=
  let skipped := os.countP (·.isSkipped)
  os.flatMap (·.warnings) ++ if 0 < skipped then [cancelledWarning skipped] else []

/-- The project after a survey. -/
def updated (p : Project) (os : List Outcome) : Project :=
  { p with
    units := os.map (·.unit)
    forms := p.forms ++ os.filterMap (·.form?)
    warnings := p.warnings ++ (warningsOf os).map Warning.display }

/-- The counts of a survey, where `p` is the project after it. -/
def statsOf (p : Project) (os : List Outcome) : Stats where
  unitsTotal := os.length
  unitsScanned := os.countP (·.isSurveyed)
  unitsFailed := os.countP (·.isFailed)
  unitsSkipped := os.countP (·.isSkipped)
  methods := p.methodCount
  queries := p.queryCount
  dynamicQueries := (p.units.flatMap (·.queries)).countP (·.isDynamic)
  forms := p.forms.length
  durationMs := 0

/-- The report of a project and the outcomes of its units. -/
def merge (p : Project) (os : List Outcome) : Report :=
  let p := updated p os
  ⟨p, warningsOf os, statsOf p os⟩

/-- The survey of a project. -/
def surveyProject (tree : FileTree) (c : Config) (stop : Cancellation) (p : Project) : Report :=
  merge p (outcomes (surveyUnit tree c) stop p.units)

/-- A report with the warnings of discovery before its own. -/
def withDiscovery (warnings : List Warning) (r : Report) : Report :=
  { r with warnings := warnings ++ r.warnings }

/-- The survey of the project at a path. -/
def surveyPath (tree : FileTree) (env : Environment) (c : Config) (stop : Cancellation)
    (path : Path) : Except SurveyError Report :=
  if stop.stops then .error .cancelled
  else match Discovery.discover tree env c path with
    | .error e => .error (.discovery e)
    | .ok r => .ok (withDiscovery r.warnings (surveyProject tree c (stop.skip 1) r.project))

/-- The survey of the project at a path under the configuration in force there. -/
def loadAndSurvey (tree : FileTree) (env : Environment) (overrides : Option Config.Overrides)
    (stop : Cancellation) (path : Path) : Except SurveyError Report :=
  match Config.load tree env path overrides with
  | .error e => .error (.config e)
  | .ok c => surveyPath tree env c stop path

/-! ### Batches -/

/-- The number of questions that the survey of a path asks. -/
def pathQuestions (tree : FileTree) (env : Environment) (c : Config) (stop : Cancellation)
    (path : Path) : Nat :=
  if stop.stops then 1
  else match Discovery.discover tree env c path with
    | .error _ => 1
    | .ok r => 1 + questions r.project

/-- The surveys of the projects at several paths, one after the other.  The failure of one
does not touch the others. -/
def surveyAll (tree : FileTree) (env : Environment) (c : Config) (stop : Cancellation) :
    List Path → List (Path × Except SurveyError Report)
  | [] => []
  | path :: rest =>
    (path, surveyPath tree env c stop path) ::
      surveyAll tree env c (stop.skip (pathQuestions tree env c stop path)) rest

end PascalSurvey.Survey
