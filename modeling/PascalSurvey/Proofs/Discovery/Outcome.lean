/-
PascalSurvey/Proofs/Discovery/Outcome.lean

What comes out of a discovery: which units there are, which of them have a file, and of what kind
the warnings are.  One step of discovery acts on the outcome alone, by the outcome of the reference
(`outcome_add`), and so does the run (`outcome_foldl_add`); and the outcome of a reference depends on no
more than whether its file is found (`answer_ofUses`, `answer_ofSource`).  So two discoveries come
out alike wherever they start alike and find the same files.
-/
import PascalSurvey.Proofs.Discovery.Start

namespace PascalSurvey.Discovery

/-- What comes out of a discovery. -/
@[ext] structure Outcome where
  /-- The names of the units, each with whether it has a file. -/
  units : List (Text × Bool)
  kinds : List Warning.Kind
  deriving DecidableEq

/-- What comes out of a reference: its name, whether it has a file, and what it warns of. -/
structure Answer where
  name : Text
  hasFile : Bool
  kind : Option Warning.Kind

/-- The outcome with an answer added, unless there is a unit of that name. -/
def Outcome.add (o : Outcome) (a : Answer) : Outcome :=
  if o.units.any fun u => Text.eqFold u.1 a.name then o
  else ⟨o.units ++ [(a.name, a.hasFile)], o.kinds ++ a.kind.toList⟩

def unitOutcome (u : SourceUnit) : Text × Bool := (u.name, u.hasFile)

def Resolution.outcome (r : Resolution) : Outcome :=
  ⟨r.project.units.map unitOutcome, r.warnings.map (·.kind)⟩

def answerOf (found : SourceUnit × Option Warning) : Answer :=
  ⟨found.1.name, found.1.hasFile, found.2.map (·.kind)⟩

/-! ### The run -/

/-- **A step acts on the outcome.** -/
theorem outcome_add (r : Resolution) (found : SourceUnit × Option Warning) :
    (r.add found).outcome = r.outcome.add (answerOf found) := by
  have hunit : r.project.hasUnit found.1.name =
      (r.outcome.units.any fun u => Text.eqFold u.1 found.1.name) := by
    rw [Project.hasUnit, Project.findUnit?, List.isSome_find?, Resolution.outcome, List.any_map]
    rfl
  unfold Resolution.add Outcome.add
  rw [show (answerOf found).name = found.1.name from rfl, ← hunit]
  cases hnew : r.project.hasUnit found.1.name with
  | true => rfl
  | false =>
    have hunits : (r.project.addUnit found.1).units = r.project.units ++ [found.1] := by
      rw [Project.units_addUnit, hnew]
      rfl
    ext1
    · simp [Resolution.outcome, hunits, unitOutcome, answerOf]
    · cases hw : found.2 <;> simp [Resolution.outcome, answerOf, hw]

/-- **So does the run.** -/
theorem outcome_foldl_add (r : Resolution) (found : List (SourceUnit × Option Warning)) :
    (found.foldl Resolution.add r).outcome = (found.map answerOf).foldl Outcome.add r.outcome := by
  induction found generalizing r with
  | nil => rfl
  | cons f rest ih => rw [List.foldl_cons, ih, outcome_add, List.map_cons, List.foldl_cons]

theorem outcome_ofProgram (tree : FileTree) (env : Environment) (c : Config)
    (program projectFile : Option Path) :
    (ofProgram tree env c program projectFile).outcome =
      ((Start.of tree env program projectFile).last tree c).outcome := by
  have hform : unitOutcome ∘ attachForm tree = unitOutcome := by
    funext u
    simp [unitOutcome, name_attachForm, hasFile_attachForm]
  rw [ofProgram_eq]
  ext1
  · show (List.map _ (List.map _ _)) = _
    rw [List.map_map, hform]
    rfl
  · rfl

/-- Discoveries that start alike and get the same answers come out alike. -/
theorem Start.outcome_last {s s' : Start} {tree : FileTree} {c : Config}
    (hunit : s.facts.unit.map unitOutcome = s'.facts.unit.map unitOutcome)
    (hwarnings : s.warnings.map (·.kind) = s'.warnings.map (·.kind))
    (hreferences : (s.references tree c).map answerOf = (s'.references tree c).map answerOf) :
    (s.last tree c).outcome = (s'.last tree c).outcome := by
  have hstart : Resolution.outcome ⟨s.project, s.warnings⟩ =
      Resolution.outcome ⟨s'.project, s'.warnings⟩ := by
    ext1
    · simp only [Resolution.outcome, Start.units_project]
      rw [← Option.toList_map, hunit, Option.toList_map]
    · exact hwarnings
  unfold Start.last
  rw [outcome_foldl_add, outcome_foldl_add, hstart, hreferences]

/-! ### References -/

/-- An answer: with a file there is no warning, and without one there is a warning of a kind. -/
def answer (name : Text) (found : Bool) (kind : Warning.Kind) : Answer :=
  ⟨name, found, if found then none else some kind⟩

/-- What an entry of the `uses` clause comes to depends on whether its file is found. -/
theorem answer_ofUses (tree : FileTree) (extensions : List Text) (root : Path) (dirs : List Path)
    (entry : Outline.UsesEntry) :
    answerOf (ofUses tree extensions root dirs entry) =
      answer entry.name
        ((entry.inPath.any fun p => tree.isFile (Path.join root p)) ||
          (findFile? tree extensions dirs entry.name).isSome)
        (if entry.inPath.isSome then .missingFile else .unresolvedUnit) := by
  have hfound : ((entry.inPath.any fun p => tree.isFile (Path.join root p)) ||
      (findFile? tree extensions dirs entry.name).isSome) =
        (((entry.inPath.map (Path.join root)).filter tree.isFile).or
          (findFile? tree extensions dirs entry.name)).isSome := by
    rw [Option.isSome_or, Option.isSome_filter, Option.any_map]
  unfold ofUses
  rw [hfound]
  dsimp only
  split
  · next hsome =>
    rw [hsome]
    rfl
  · next hnone =>
    rw [hnone]
    cases entry.inPath <;> rfl

/-- So does what a source of the project file comes to. -/
theorem answer_ofSource (tree : FileTree) (root : Path) (source : ProjectFile.SourceFile) :
    answerOf (ofSource tree root source) =
      answer source.unitName (source.resolvedPath.any tree.isFile) .missingFile := by
  unfold ofSource
  rw [← Option.isSome_filter]
  split
  · next hsome =>
    rw [hsome]
    rfl
  · next hnone =>
    rw [hnone]
    rfl

end PascalSurvey.Discovery
