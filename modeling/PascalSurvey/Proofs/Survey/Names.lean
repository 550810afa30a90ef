/-
PascalSurvey/Proofs/Survey/Names.lean

The names of the units in a report.  Discovery keeps the names of units apart, but a survey
gives each unit whose file can be read the name that the file declares (`reportedName`), and
does not look at the other units.  So the names of the report are exactly the reported names of
the units found, in their order, and two files that declare one name leave two units of that
name in the report (`surveyPath_savedCopy`).  They all differ where each file declares the name
under which its unit was found.

Main result: `surveyPath_names`.
-/
import PascalSurvey.Proofs.Discovery.References
import PascalSurvey.Survey.Basic

namespace PascalSurvey

/-! ### Names after discovery -/

/-- The names of the units that discovery finds differ, wherever it starts. -/
theorem Discovery.namesDiffer_of_discover {tree : FileTree} {env : Environment} {c : Config}
    {path : Path} {r : Resolution} (h : discover tree env c path = .ok r) :
    NamesDiffer r.project.units := by
  unfold discover at h
  cases hstart : locate tree path c.extensions with
  | error e =>
    rw [hstart] at h
    cases h
  | ok start =>
    rw [hstart] at h
    cases start with
    | folder root files =>
      obtain rfl := Except.ok.inj h
      exact NamesDiffer.foldl_addUnit (p := .empty root _) List.Pairwise.nil _ files
    | program program projectFile =>
      obtain rfl := Except.ok.inj h
      obtain ⟨_, _, _, hadds, -⟩ := adds_ofProgram tree env c program projectFile
      exact hadds.accounted_end.namesDiffer

namespace Survey

/-! ### Names in the report -/

/-- The name of a unit in the report: the one that its file declares, if the file can be read. -/
def reportedName (tree : FileTree) (c : Config) (u : SourceUnit) : Text :=
  match u.file with
  | none => u.name
  | some file => match readUnit tree c file with
    | .error _ => u.name
    | .ok bytes => (Outline.ofText (decode bytes) file).name

theorem name_outcome (tree : FileTree) (c : Config) (u : SourceUnit) :
    (outcome (surveyUnit tree c) false u).unit.name = reportedName tree c u := by
  cases hfile : u.file with
  | none => simp [outcome, reportedName, SourceUnit.hasFile, Outcome.unit, hfile]
  | some file =>
    cases hread : readUnit tree c file with
    | error e => simp [outcome, reportedName, SourceUnit.hasFile, Outcome.unit, surveyUnit, hfile, hread]
    | ok bytes =>
      simp [outcome, reportedName, SourceUnit.hasFile, Outcome.unit, surveyUnit, surveyText, hfile,
        hread]

/-- Where nobody stops the survey, every unit gets its reported name. -/
theorem names_outcomes (tree : FileTree) (c : Config) {stop : Cancellation}
    (hgo : ∀ k, stop.answer k = false) (us : List SourceUnit) :
    (outcomes (surveyUnit tree c) stop us).map (·.unit.name) = us.map (reportedName tree c) := by
  induction us generalizing stop with
  | nil => rfl
  | cons u rest ih =>
    have hrest (k : Nat) : (if u.hasFile then stop.skip 1 else stop).answer k = false := by
      split
      · exact hgo (1 + k)
      · exact hgo k
    have hfirst : stop.stops = false := hgo 0
    rw [outcomes, List.map_cons, List.map_cons, ih hrest, hfirst, name_outcome]

/-- Whether the file of a unit declares the unit's own name, in any case. -/
def keepsName (tree : FileTree) (c : Config) (u : SourceUnit) : Bool :=
  Text.eqFold (reportedName tree c u) u.name

theorem namesDiffer_of_keepsName {tree : FileTree} {c : Config} {us vs : List SourceUnit}
    (h : NamesDiffer us) (hkeep : ∀ u ∈ us, keepsName tree c u = true)
    (hnames : vs.map (·.name) = us.map (reportedName tree c)) : NamesDiffer vs := by
  rw [namesDiffer_iff_map, hnames, List.pairwise_map]
  refine h.imp_of_mem ?_
  intro a b ha hb hab
  rw [← hab]
  rw [Bool.eq_iff_iff, Text.eqFold_iff, Text.eqFold_iff, Text.eqFold_iff.mp (hkeep a ha),
    Text.eqFold_iff.mp (hkeep b hb)]

/-- **Main.**  Where the survey of a path succeeds and nobody stops it, the names of the units
that discovery found differ, the report has these units in the same order under their reported
names, and its names differ too if each file that can be read declares the name under which its
unit was found. -/
theorem surveyPath_names {tree : FileTree} {env : Environment} {c : Config} {stop : Cancellation}
    {path : Path} {report : Report} (hgo : ∀ k, stop.answer k = false)
    (h : surveyPath tree env c stop path = .ok report) :
    ∃ r, Discovery.discover tree env c path = .ok r ∧
      NamesDiffer r.project.units ∧
      report.project.units.map (·.name) = r.project.units.map (reportedName tree c) ∧
      ((∀ u ∈ r.project.units, keepsName tree c u = true) →
        NamesDiffer report.project.units) := by
  rw [surveyPath, Cancellation.stops, hgo 0, if_neg Bool.false_ne_true] at h
  cases hr : Discovery.discover tree env c path with
  | error e =>
    rw [hr] at h
    cases h
  | ok r =>
    rw [hr] at h
    obtain rfl := Except.ok.inj h
    have hdiffer := Discovery.namesDiffer_of_discover hr
    have hnames : (withDiscovery r.warnings
        (surveyProject tree c (stop.skip 1) r.project)).project.units.map (·.name) =
          r.project.units.map (reportedName tree c) := by
      have hskip (k : Nat) : (stop.skip 1).answer k = false := hgo (1 + k)
      rw [← names_outcomes tree c hskip]
      simp [withDiscovery, surveyProject, merge, updated]
    exact ⟨r, rfl, hdiffer, hnames, fun hkeep => namesDiffer_of_keepsName hdiffer hkeep hnames⟩

/-- A program with two units, one of which has its name in capitals in the program. -/
def twoUnits : FileTree :=
  ((FileTree.empty.addFile "App.dpr"
    (Text.ofString "program App; uses UMAIN in 'uMain.pas', uData in 'uData.pas'; begin end.")).addFile
    "uMain.pas" (Text.ofString "unit uMain; interface implementation end.")).addFile
    "uData.pas" (Text.ofString "unit uData; interface implementation end.")

theorem surveyPath_twoUnits :
    (∀ k, Cancellation.never.answer k = false) ∧
      ∃ report, surveyPath twoUnits [] Config.default .never "App.dpr" = .ok report ∧
        report.project.units.map (·.name) = Text.ofStrings ["App", "uMain", "uData"] ∧
        NamesDiffer report.project.units := by
  have hgo (k : Nat) : Cancellation.never.answer k = false := rfl
  have hnames : (surveyPath twoUnits [] Config.default .never "App.dpr").toOption.map
      (·.project.units.map (·.name)) = some (Text.ofStrings ["App", "uMain", "uData"]) := by
    decide +kernel
  have hkeeps : (Discovery.discover twoUnits [] Config.default "App.dpr").toOption.map
      (·.project.units.all (keepsName twoUnits Config.default)) = some true := by
    decide +kernel
  cases h : surveyPath twoUnits [] Config.default .never "App.dpr" with
  | error e =>
    rw [h] at hnames
    cases hnames
  | ok report =>
    rw [h] at hnames
    obtain ⟨r, hr, -, -, hdiffer⟩ := surveyPath_names hgo h
    rw [hr] at hkeeps
    exact ⟨hgo, report, rfl, Option.some.inj hnames,
      hdiffer (List.all_eq_true.mp (Option.some.inj hkeeps))⟩

/-- A program with a unit and a copy of it that was saved under another name, the header being
as it was. -/
def savedCopy : FileTree :=
  ((FileTree.empty.addFile "App.dpr"
    (Text.ofString "program App; uses uMain in 'uMain.pas', uCopy in 'uCopy.pas'; begin end.")).addFile
    "uMain.pas" (Text.ofString "unit uMain; interface implementation end.")).addFile
    "uCopy.pas" (Text.ofString "unit uMain; interface implementation end.")

/-- The unit and its copy are found as two units and reported under one name. -/
theorem surveyPath_savedCopy :
    ∃ report, surveyPath savedCopy [] Config.default .never "App.dpr" = .ok report ∧
      report.project.units.map (·.name) = Text.ofStrings ["App", "uMain", "uMain"] ∧
      ¬ NamesDiffer report.project.units := by
  have hnames : (surveyPath savedCopy [] Config.default .never "App.dpr").toOption.map
      (·.project.units.map (·.name)) = some (Text.ofStrings ["App", "uMain", "uMain"]) := by
    decide +kernel
  cases h : surveyPath savedCopy [] Config.default .never "App.dpr" with
  | error e =>
    rw [h] at hnames
    cases hnames
  | ok report =>
    rw [h] at hnames
    have hnames : report.project.units.map (·.name) = _ := Option.some.inj hnames
    refine ⟨report, rfl, hnames, ?_⟩
    rw [namesDiffer_iff_map, hnames]
    decide +kernel

end Survey
end PascalSurvey
