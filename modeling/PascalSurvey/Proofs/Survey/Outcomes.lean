/-
PascalSurvey/Proofs/Survey/Outcomes.lean

The account of a survey.  Each unit that has a file asks whether to stop, and the answers may
change between any two units.  Here every unit has a survey and an answer of its own
(`outcomesBy`), so what follows holds for every pattern of answers, in whatever order the units
ask for them.

The surveys that take place are those of the units with a file that are not told to stop, and
all that they give is the list `results`.  The outcome of one unit says what the unit becomes,
what it is counted as and which warnings and forms it adds; put together in the order of the
units, these are the units, the counts, the warnings and the forms of the report
(`Accounts`).

The warning that units were left out tells how many they are (`TellsSkipped`).

Main results: the report of every survey accounts for the units of the project
(`merge_accounts`), and in a file tree the warning that units were left out is the only one
about cancelling (`cancelled_surveyProject`).
-/
import Mathlib.Data.List.Basic
import PascalSurvey.Proofs.Text.Decimal
import PascalSurvey.Survey.Basic

namespace PascalSurvey.Survey

/-! ### Surveys and answers of units -/

/-- The outcomes of units, each with the survey and the answer that belong to its position. -/
def outcomesBy (surveys : Nat → SourceUnit → Except Warning UnitFacts) (stops : Nat → Bool)
    (us : List SourceUnit) : List Outcome :=
  us.mapIdx fun i u => outcome (surveys i) (stops i) u

/-- What the survey of a unit gives, if it takes place. -/
def result? (survey : SourceUnit → Except Warning UnitFacts) (stop : Bool) (u : SourceUnit) :
    Option (Except Warning UnitFacts) :=
  if u.hasFile && !stop then some (survey u) else none

/-- What the surveys of units give, those that take place. -/
def results (surveys : Nat → SourceUnit → Except Warning UnitFacts) (stops : Nat → Bool)
    (us : List SourceUnit) : List (Except Warning UnitFacts) :=
  us.zipIdx.filterMap fun (u, i) => result? (surveys i) (stops i) u

/-- The warnings of the survey of a unit. -/
def warningsIn : Except Warning UnitFacts → List Warning
  | .ok facts => facts.warnings
  | .error w => [w]

/-- The form that the survey of a unit found. -/
def formIn? : Except Warning UnitFacts → Option Form
  | .ok facts => facts.form
  | .error _ => none

/-- The answer that is left for the unit at a position when the units ask in their order. -/
def answerAt (stop : Cancellation) (us : List SourceUnit) (i : Nat) : Bool :=
  stop.answer ((us.take i).countP (·.hasFile))

/-- The outcomes of units that are surveyed in their order, and all alike. -/
theorem outcomes_eq_outcomesBy (survey : SourceUnit → Except Warning UnitFacts)
    (stop : Cancellation) (us : List SourceUnit) :
    outcomes survey stop us = outcomesBy (fun _ => survey) (answerAt stop us) us := by
  induction us generalizing stop with
  | nil => rfl
  | cons u rest ih =>
    rw [outcomes, ih, outcomesBy, outcomesBy, List.mapIdx_cons]
    congr 1
    -- the answers that are left for the rest are those that `u` does not take
    cases hfile : u.hasFile with
    | true => simp [answerAt, hfile, Cancellation.skip, Nat.add_comm 1]
    | false => simp [answerAt, hfile]

/-! ### The outcome of one unit -/

section One

variable {survey : SourceUnit → Except Warning UnitFacts} {stop : Bool} {u : SourceUnit}

theorem unit_outcome_of_left
    (h : u.hasFile = false ∨ stop = true ∨ ∃ w, survey u = .error w) :
    (outcome survey stop u).unit = u := by
  cases hfile : u.hasFile
  · simp [outcome, Outcome.unit, hfile]
  cases stop
  · obtain h | h | ⟨w, h⟩ := h
    · rw [hfile] at h
      cases h
    · cases h
    · simp [outcome, Outcome.unit, hfile, h]
  · simp [outcome, Outcome.unit, hfile]

theorem unit_outcome_of_ok {facts : UnitFacts} (hfile : u.hasFile = true) (hstop : stop = false)
    (h : survey u = .ok facts) : (outcome survey stop u).unit = facts.unit := by
  simp [outcome, Outcome.unit, hfile, hstop, h]

/-- What the outcome of a unit is counted as. -/
theorem outcome_counts (survey : SourceUnit → Except Warning UnitFacts) (stop : Bool)
    (u : SourceUnit) :
    (outcome survey stop u).isSurveyed = ((result? survey stop u).map Except.isOk).getD false ∧
      (outcome survey stop u).isFailed = ((result? survey stop u).map (!·.isOk)).getD false ∧
      (outcome survey stop u).isSkipped = (u.hasFile && stop) := by
  cases hfile : u.hasFile
  · simp [outcome, result?, hfile, Outcome.isSurveyed, Outcome.isFailed, Outcome.isSkipped]
  cases stop
  · cases h : survey u <;>
      simp [outcome, result?, hfile, h, Outcome.isSurveyed, Outcome.isFailed, Outcome.isSkipped,
        Except.isOk, Except.toBool]
  · simp [outcome, result?, hfile, Outcome.isSurveyed, Outcome.isFailed, Outcome.isSkipped]

/-- What the outcome of a unit adds to the report. -/
theorem outcome_adds (survey : SourceUnit → Except Warning UnitFacts) (stop : Bool)
    (u : SourceUnit) :
    (outcome survey stop u).warnings = (result? survey stop u).toList.flatMap warningsIn ∧
      (outcome survey stop u).form? = (result? survey stop u).bind formIn? := by
  cases hfile : u.hasFile
  · simp [outcome, result?, hfile, Outcome.warnings, Outcome.form?]
  cases stop
  · cases h : survey u <;>
      simp [outcome, result?, hfile, h, Outcome.warnings, Outcome.form?, warningsIn, formIn?]
  · simp [outcome, result?, hfile, Outcome.warnings, Outcome.form?]

end One

/-! ### The outcomes of all units -/

section All

variable (surveys : Nat → SourceUnit → Except Warning UnitFacts) (stops : Nat → Bool)
  (us : List SourceUnit)

theorem outcomesBy_eq_map :
    outcomesBy surveys stops us = us.zipIdx.map fun (u, i) => outcome (surveys i) (stops i) u :=
  List.mapIdx_eq_zipIdx_map

theorem countP_isSurveyed :
    (outcomesBy surveys stops us).countP (·.isSurveyed) =
      (results surveys stops us).countP (·.isOk) := by
  rw [outcomesBy_eq_map, List.countP_map, results, List.countP_filterMap]
  exact List.countP_congr fun (u, i) _ => by simp [(outcome_counts (surveys i) (stops i) u).1]

theorem countP_isFailed :
    (outcomesBy surveys stops us).countP (·.isFailed) =
      (results surveys stops us).countP (!·.isOk) := by
  rw [outcomesBy_eq_map, List.countP_map, results, List.countP_filterMap]
  exact List.countP_congr fun (u, i) _ => by simp [(outcome_counts (surveys i) (stops i) u).2.1]

theorem countP_isSkipped :
    (outcomesBy surveys stops us).countP (·.isSkipped) =
      us.zipIdx.countP fun (u, i) => u.hasFile && stops i := by
  rw [outcomesBy_eq_map, List.countP_map]
  exact List.countP_congr fun (u, i) _ => by simp [(outcome_counts (surveys i) (stops i) u).2.2]

theorem flatMap_warnings :
    (outcomesBy surveys stops us).flatMap (·.warnings) =
      (results surveys stops us).flatMap warningsIn := by
  rw [outcomesBy_eq_map, List.flatMap_map, results, List.filterMap_eq_flatMap_toList,
    List.flatMap_assoc]
  congr 1
  funext (u, i)
  exact (outcome_adds (surveys i) (stops i) u).1

theorem filterMap_form? :
    (outcomesBy surveys stops us).filterMap (·.form?) =
      (results surveys stops us).filterMap formIn? := by
  rw [outcomesBy_eq_map, List.filterMap_map, results, List.filterMap_filterMap]
  congr 1
  funext (u, i)
  exact (outcome_adds (surveys i) (stops i) u).2

theorem exists_of_mem_results {surveys : Nat → SourceUnit → Except Warning UnitFacts}
    {stops : Nat → Bool} {us : List SourceUnit} {result : Except Warning UnitFacts}
    (h : result ∈ results surveys stops us) :
    ∃ i u, us[i]? = some u ∧ surveys i u = result := by
  obtain ⟨⟨u, i⟩, hmem, hresult⟩ := List.mem_filterMap.mp h
  refine ⟨i, u, List.mem_zipIdx_iff_getElem?.mp hmem, ?_⟩
  dsimp only [result?] at hresult
  split at hresult
  · exact Option.some.inj hresult
  · cases hresult

/-- Every unit is counted once, if the units without a file are counted too. -/
theorem length_eq_parts :
    us.length = (results surveys stops us).countP (·.isOk) +
      (results surveys stops us).countP (!·.isOk) +
      (us.zipIdx.countP fun (u, i) => u.hasFile && stops i) + us.countP (!·.hasFile) := by
  have hresults (rs : List (Except Warning UnitFacts)) :
      rs.countP (·.isOk) + rs.countP (!·.isOk) = rs.length := by
    rw [List.length_eq_countP_add_countP (·.isOk)]
    simp
  have hnoFile : us.countP (!·.hasFile) = us.zipIdx.countP fun a => !a.1.hasFile := by
    conv_lhs => rw [← List.zipIdx_map_fst 0 us, List.countP_map]
    rfl
  -- a unit has no file, is told to stop or is surveyed, and only one of these
  rw [hresults, hnoFile, results, ← List.length_zipIdx]
  induction us.zipIdx with
  | nil => rfl
  | cons a rest ih =>
    rw [List.length_cons, ih, List.filterMap_cons, List.countP_cons, List.countP_cons]
    cases hfile : a.1.hasFile <;> cases hstop : stops a.2 <;> simp [result?, hfile, hstop] <;> omega

end All

/-! ### The report -/

/-- A warning tells that the survey was cancelled and how many units were left out. -/
structure TellsSkipped (skipped : Nat) (w : Warning) : Prop where
  kind : w.kind = .cancelled
  path : w.path = none
  message : ∃ digits, Text.IsDecimal digits skipped ∧
    w.message = Text.ofString "scan cancelled, " ++ digits ++ Text.ofString " units not scanned"

theorem tellsSkipped_cancelledWarning (skipped : Nat) :
    TellsSkipped skipped (cancelledWarning skipped) :=
  ⟨rfl, rfl, _, Text.isDecimal_ofNat skipped, rfl⟩

/-- The report `r` accounts for the units of the project `p`, where the units have these surveys
and these answers. -/
structure Accounts (p : Project) (surveys : Nat → SourceUnit → Except Warning UnitFacts)
    (stops : Nat → Bool) (r : Report) : Prop where
  /-- Only the units, the forms and the lines of the warnings are new. -/
  rest : r.project = { p with
    units := r.project.units, forms := r.project.forms, warnings := r.project.warnings }
  length_units : r.project.units.length = p.units.length
  /-- A unit that has no file, is told to stop or cannot be surveyed is as it was. -/
  unit_left : ∀ {i u}, p.units[i]? = some u →
    (u.hasFile = false ∨ stops i = true ∨ ∃ w, surveys i u = .error w) →
      r.project.units[i]? = some u
  /-- Any other unit is what its survey found. -/
  unit_surveyed : ∀ {i u facts}, p.units[i]? = some u → u.hasFile = true → stops i = false →
    surveys i u = .ok facts → r.project.units[i]? = some facts.unit
  total : r.stats.unitsTotal = p.units.length
  scanned : r.stats.unitsScanned = (results surveys stops p.units).countP (·.isOk)
  failed : r.stats.unitsFailed = (results surveys stops p.units).countP (!·.isOk)
  skipped : r.stats.unitsSkipped = p.units.zipIdx.countP fun (u, i) => u.hasFile && stops i
  parts : r.stats.unitsTotal = r.stats.unitsScanned + r.stats.unitsFailed +
    r.stats.unitsSkipped + p.units.countP (!·.hasFile)
  methods : r.stats.methods = (r.project.units.flatMap (·.methods)).length
  queries : r.stats.queries = (r.project.units.flatMap (·.queries)).length
  dynamicQueries :
    r.stats.dynamicQueries = (r.project.units.flatMap (·.queries)).countP (·.isDynamic)
  formCount : r.stats.forms = r.project.forms.length
  forms : r.project.forms = p.forms ++ (results surveys stops p.units).filterMap formIn?
  warnings : r.warnings = (results surveys stops p.units).flatMap warningsIn ++
    if 0 < r.stats.unitsSkipped then [cancelledWarning r.stats.unitsSkipped] else []
  lines : r.project.warnings = p.warnings ++ r.warnings.map Warning.display
  /-- If units were left out, the last warning tells how many. -/
  told : 0 < r.stats.unitsSkipped →
    ∃ w, r.warnings.getLast? = some w ∧ TellsSkipped r.stats.unitsSkipped w
  /-- Only the warning that units were left out is about cancelling. -/
  cancelled : (∀ result ∈ results surveys stops p.units, ∀ w ∈ warningsIn result,
      w.kind ≠ .cancelled) →
    r.warnings.filter (·.kind = .cancelled) =
      if 0 < r.stats.unitsSkipped then [cancelledWarning r.stats.unitsSkipped] else []

/-- The report of a survey accounts for the units. -/
theorem merge_accounts (p : Project) (surveys : Nat → SourceUnit → Except Warning UnitFacts)
    (stops : Nat → Bool) :
    Accounts p surveys stops (merge p (outcomesBy surveys stops p.units)) where
  rest := rfl
  length_units := by simp [merge, updated, outcomesBy]
  unit_left hu h := by
    simp [merge, updated, outcomesBy, hu, unit_outcome_of_left h]
  unit_surveyed hu hfile hstop h := by
    simp [merge, updated, outcomesBy, hu, unit_outcome_of_ok hfile hstop h]
  total := by simp [merge, statsOf, outcomesBy]
  scanned := countP_isSurveyed surveys stops p.units
  failed := countP_isFailed surveys stops p.units
  skipped := countP_isSkipped surveys stops p.units
  parts := by
    simp only [merge, statsOf, countP_isSurveyed, countP_isFailed, countP_isSkipped,
      ← length_eq_parts]
    simp [outcomesBy]
  methods := rfl
  queries := rfl
  dynamicQueries := rfl
  formCount := rfl
  forms := by simp [merge, updated, filterMap_form?]
  warnings := by simp [merge, warningsOf, statsOf, flatMap_warnings]
  lines := rfl
  told h := by
    refine ⟨_, ?_, tellsSkipped_cancelledWarning _⟩
    have hwarnings : (merge p (outcomesBy surveys stops p.units)).warnings = _ ++ [_] :=
      congrArg (_ ++ ·) (if_pos h)
    rw [hwarnings, List.getLast?_concat]
    rfl
  cancelled h := by
    have hnone : ((results surveys stops p.units).flatMap warningsIn).filter
        (·.kind = .cancelled) = [] := by
      simpa [List.filter_eq_nil_iff] using fun w result hresult hw => h result hresult w hw
    have hown (n : Nat) := (tellsSkipped_cancelledWarning n).kind
    simp only [merge, warningsOf, statsOf, flatMap_warnings, List.filter_append, hnone,
      List.nil_append]
    split
    · simp [hown]
    · rfl

/-! ### The survey of a file tree -/

theorem surveyProject_accounts (tree : FileTree) (c : Config) (stop : Cancellation)
    (p : Project) :
    Accounts p (fun _ => surveyUnit tree c) (answerAt stop p.units)
      (surveyProject tree c stop p) := by
  rw [surveyProject, outcomes_eq_outcomesBy]
  exact merge_accounts p _ _

theorem kind_toWarning_ne {tree : FileTree} {c : Config} {file : Path} {e : UnitError}
    (h : readUnit tree c file = .error e) : e.toWarning.kind ≠ .cancelled := by
  rw [readUnit] at h
  split at h
  · obtain rfl := Except.error.inj h
    nofun
  · split at h
    · obtain rfl := Except.error.inj h
      nofun
    · cases h

theorem kind_readForm_ne {tree : FileTree} {name : Text} {file : Path} :
    ∀ w ∈ (readForm tree name file).2, w.kind ≠ .cancelled := by
  rw [readForm]
  split
  · rintro w ⟨⟩
    nofun
  · split <;> rintro w ⟨⟩
    nofun

/-- The survey of a unit in a file tree says nothing about cancelling. -/
theorem kind_ne_of_mem_surveyUnit {tree : FileTree} {c : Config} {u : SourceUnit} :
    ∀ w ∈ warningsIn (surveyUnit tree c u), w.kind ≠ .cancelled := by
  rw [surveyUnit]
  split
  · simp [warningsIn, Warning.plain]
  · next file _ =>
    split
    · next e he =>
      simpa [warningsIn] using kind_toWarning_ne he
    · next bytes _ =>
      intro w hw
      rw [warningsIn, surveyText] at hw
      rcases List.mem_append.mp hw with hw | hw
      · obtain ⟨m, -, rfl⟩ := List.mem_map.mp hw
        nofun
      · rw [Option.mem_toList] at hw
        cases hform : u.formFile with
        | none =>
          rw [hform] at hw
          cases hw
        | some formFile =>
          rw [hform] at hw
          exact kind_readForm_ne w hw

/-- In a survey of a file tree the warning that units were left out is the only one about
cancelling. -/
theorem cancelled_surveyProject (tree : FileTree) (c : Config) (stop : Cancellation)
    (p : Project) :
    (surveyProject tree c stop p).warnings.filter (·.kind = .cancelled) =
      if 0 < (surveyProject tree c stop p).stats.unitsSkipped then
        [cancelledWarning (surveyProject tree c stop p).stats.unitsSkipped]
      else [] := by
  apply (surveyProject_accounts tree c stop p).cancelled
  intro result hresult
  obtain ⟨i, u, -, rfl⟩ := exists_of_mem_results hresult
  exact kind_ne_of_mem_surveyUnit

/-- **Main.**  Whatever the surveys of the units of a project give, and whichever units are told
to stop, the report accounts for the units of the project.  The survey of a project in a file
tree is the case in which the units are surveyed alike and ask one after the other; there only
the warning that units were left out is about cancelling. -/
theorem survey_accounts (p : Project) :
    (∀ surveys stops, Accounts p surveys stops (merge p (outcomesBy surveys stops p.units))) ∧
      ∀ tree c stop, Accounts p (fun _ => surveyUnit tree c) (answerAt stop p.units)
          (surveyProject tree c stop p) ∧
        (surveyProject tree c stop p).warnings.filter (·.kind = .cancelled) =
          if 0 < (surveyProject tree c stop p).stats.unitsSkipped then
            [cancelledWarning (surveyProject tree c stop p).stats.unitsSkipped]
          else [] :=
  ⟨merge_accounts p, fun tree c stop =>
    ⟨surveyProject_accounts tree c stop p, cancelled_surveyProject tree c stop p⟩⟩

/-- A unit that is there, one that was never found, one whose file is gone and one that is
asked too late. -/
def halfway : Project :=
  { Project.empty [] "App" with units :=
      [.withFile "uMain" "uMain.pas" [], .named "uGhost", .withFile "uGone" "uGone.pas" [],
        .withFile "uLate" "uLate.pas" []] }

/-- The files of `halfway`. -/
def halfwayTree : FileTree :=
  (FileTree.empty.addFile "uMain.pas"
    (Text.ofString "unit uMain; interface implementation end.")).addFile
    "uLate.pas" (Text.ofString "unit uLate; interface implementation end.")

theorem survey_halfway :
    ∃ r, surveyProject halfwayTree Config.default (.afterAsking 2) halfway = r ∧
      r.stats.unitsScanned = 1 ∧ r.stats.unitsFailed = 1 ∧ r.stats.unitsSkipped = 1 ∧
      r.project.units[3]? = halfway.units[3]? ∧
      r.warnings.getLast? = some ⟨.cancelled, none,
        Text.ofString "scan cancelled, 1 units not scanned"⟩ := by
  refine ⟨_, rfl, ?_⟩
  have h := ((survey_accounts halfway).2 halfwayTree Config.default (.afterAsking 2)).1
  have hscanned := h.scanned.trans (show _ = 1 by decide +kernel)
  have hfailed := h.failed.trans (show _ = 1 by decide +kernel)
  have hskipped := h.skipped.trans (show _ = 1 by decide +kernel)
  refine ⟨hscanned, hfailed, hskipped, h.unit_left rfl (.inr (.inl (by decide +kernel))), ?_⟩
  rw [h.warnings, hskipped, if_pos Nat.one_pos, List.getLast?_concat]
  decide +kernel

end PascalSurvey.Survey
