/-
PascalSurvey/Proofs/Survey/Warnings.lean

The two lists of warnings in a report.  A report has its warnings, and its project has a line
for each of them.  Discovery writes the lines of its own warnings
(`Discovery.lines_of_discover`), the survey of the units appends the lines of what it has to
say, and only then do the warnings of discovery come before those of the survey.  The lines are
those of the warnings all along.

Main result: in the report of a path the lines of the project are those of the warnings, and
the warnings are those of discovery, then those of the units in their order, then the one that
units were left out (`surveyPath_warnings`).
-/
import PascalSurvey.Proofs.Survey.Outcomes

namespace PascalSurvey

/-- Discovery writes a line for each of its warnings, wherever it starts. -/
theorem Discovery.lines_of_discover {tree : FileTree} {env : Environment} {c : Config}
    {path : Path} {r : Resolution} (h : discover tree env c path = .ok r) :
    r.project.warnings = r.warnings.map Warning.display := by
  unfold discover at h
  cases hstart : locate tree path c.extensions with
  | error e =>
    rw [hstart] at h
    cases h
  | ok start =>
    rw [hstart] at h
    cases start with
    | folder root files =>
      obtain rfl := Except.ok.inj h
      rfl
    | program program projectFile =>
      obtain rfl := Except.ok.inj h
      rfl

namespace Survey

/-- A survey that succeeds is one of the project that discovery found. -/
theorem exists_of_surveyPath {tree : FileTree} {env : Environment} {c : Config}
    {stop : Cancellation} {path : Path} {report : Report}
    (h : surveyPath tree env c stop path = .ok report) :
    ∃ r, Discovery.discover tree env c path = .ok r ∧
      report = withDiscovery r.warnings (surveyProject tree c (stop.skip 1) r.project) := by
  rw [surveyPath] at h
  split at h
  · cases h
  cases hr : Discovery.discover tree env c path with
  | error e =>
    rw [hr] at h
    cases h
  | ok r =>
    rw [hr] at h
    exact ⟨r, rfl, (Except.ok.inj h).symm⟩

/-- **Main.**  In the report of a path the lines of the project are those of the warnings.  The
warnings of discovery come first, then those of the units that were surveyed, in the order of
the units, and then, if units were left out, the warning that says so. -/
theorem surveyPath_warnings {tree : FileTree} {env : Environment} {c : Config}
    {stop : Cancellation} {path : Path} {report : Report}
    (h : surveyPath tree env c stop path = .ok report) :
    report.project.warnings = report.warnings.map Warning.display ∧
      ∃ r, Discovery.discover tree env c path = .ok r ∧
        report.warnings = r.warnings ++
          (results (fun _ => surveyUnit tree c) (answerAt (stop.skip 1) r.project.units)
            r.project.units).flatMap warningsIn ++
          if 0 < report.stats.unitsSkipped then [cancelledWarning report.stats.unitsSkipped]
          else [] := by
  obtain ⟨r, hr, rfl⟩ := exists_of_surveyPath h
  have haccounts := surveyProject_accounts tree c (stop.skip 1) r.project
  constructor
  · calc (surveyProject tree c (stop.skip 1) r.project).project.warnings
        = r.warnings.map Warning.display ++
            (surveyProject tree c (stop.skip 1) r.project).warnings.map Warning.display := by
          rw [haccounts.lines, Discovery.lines_of_discover hr]
      _ = (r.warnings ++
            (surveyProject tree c (stop.skip 1) r.project).warnings).map Warning.display :=
          List.map_append.symm
  · refine ⟨r, hr, ?_⟩
    rw [List.append_assoc]
    exact congrArg (r.warnings ++ ·) haccounts.warnings

/-- A program with a unit that is nowhere, one with a method that does not end and one that is
left out when the third unit asks. -/
def unfinished : FileTree :=
  ((FileTree.empty.addFile "/work/App.dpr"
    (Text.ofString "program App; uses uGhost, uOpen in 'uOpen.pas', uLate in '..\\lib\\uLate.pas'; " ++
      Text.ofString "begin end.")).addFile
    "/work/uOpen.pas" (Text.ofString
      "unit uOpen; interface implementation procedure TOpen.Run; begin")).addFile
    "/lib/uLate.pas" (Text.ofString "unit uLate; interface implementation end.")

theorem surveyPath_unfinished :
    ∃ report, surveyPath unfinished [] Config.default (.afterAsking 3) "/work/App.dpr" = .ok report ∧
      report.warnings.map (·.kind) = [.unresolvedUnit, .unterminatedMethod, .cancelled] ∧
      report.project.warnings = report.warnings.map Warning.display := by
  have hkinds : (surveyPath unfinished [] Config.default (.afterAsking 3)
      "/work/App.dpr").toOption.map (·.warnings.map (·.kind)) =
        some [.unresolvedUnit, .unterminatedMethod, .cancelled] := by
    decide +kernel
  cases h : surveyPath unfinished [] Config.default (.afterAsking 3) "/work/App.dpr" with
  | error e =>
    rw [h] at hkinds
    cases hkinds
  | ok report =>
    rw [h] at hkinds
    exact ⟨report, rfl, Option.some.inj hkinds, (surveyPath_warnings h).1⟩

end Survey
end PascalSurvey
