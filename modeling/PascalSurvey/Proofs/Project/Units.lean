/-
PascalSurvey/Proofs/Project/Units.lean

The names of the units of a project.  A project gets its units one at a time, and `addUnit`
leaves out a unit whose name is there already, in whatever case.  So the names of a project
that is made in this way all differ (`NamesDiffer.addUnit`), and a name that a project has
once had is never lost (`hasUnit_addUnit_of_hasUnit`).
-/
import PascalSurvey.Project.Basic
import PascalSurvey.Proofs.Text.Fold

namespace PascalSurvey

/-- No two of the units have the same name, in any case. -/
def NamesDiffer (us : List SourceUnit) : Prop :=
  us.Pairwise fun a b => Text.eqFold a.name b.name = false

instance (us : List SourceUnit) : Decidable (NamesDiffer us) :=
  inferInstanceAs (Decidable (us.Pairwise _))

/-- Only the names of the units matter. -/
theorem namesDiffer_iff_map {us : List SourceUnit} :
    NamesDiffer us ↔ (us.map (·.name)).Pairwise fun a b => Text.eqFold a b = false := by
  rw [List.pairwise_map]
  rfl

theorem NamesDiffer.congr {us vs : List SourceUnit} (h : NamesDiffer us)
    (hnames : us.map (·.name) = vs.map (·.name)) : NamesDiffer vs := by
  rwa [namesDiffer_iff_map, ← hnames, ← namesDiffer_iff_map]

namespace Project

theorem hasUnit_iff {p : Project} {name : Text} :
    p.hasUnit name = true ↔ ∃ u ∈ p.units, Text.eqFold u.name name = true := by
  rw [hasUnit, findUnit?, List.find?_isSome]

theorem hasUnit_congr {p q : Project} (hnames : p.units.map (·.name) = q.units.map (·.name))
    (name : Text) : p.hasUnit name = q.hasUnit name := by
  have key (p : Project) : p.hasUnit name = (p.units.map (·.name)).any (Text.eqFold · name) := by
    rw [Bool.eq_iff_iff, hasUnit_iff, List.any_map, List.any_eq_true]
    rfl
  rw [key, key, hnames]

theorem units_addUnit (p : Project) (u : SourceUnit) :
    (p.addUnit u).units = if p.hasUnit u.name then p.units else p.units ++ [u] := by
  rw [addUnit]
  split <;> rfl

/-- A unit that is added is there, under its name or under another spelling of it. -/
theorem hasUnit_addUnit (p : Project) (u : SourceUnit) : (p.addUnit u).hasUnit u.name = true := by
  cases h : p.hasUnit u.name with
  | true =>
    rw [addUnit, if_pos h]
    exact h
  | false =>
    rw [hasUnit_iff, units_addUnit, h]
    exact ⟨u, by simp, Text.eqFold_iff.mpr rfl⟩

/-- Adding a unit takes no name away. -/
theorem hasUnit_addUnit_of_hasUnit {p : Project} {name : Text} (u : SourceUnit)
    (h : p.hasUnit name = true) : (p.addUnit u).hasUnit name = true := by
  obtain ⟨v, hv, hname⟩ := hasUnit_iff.mp h
  rw [hasUnit_iff, units_addUnit]
  refine ⟨v, ?_, hname⟩
  split
  · exact hv
  · exact List.mem_append_left _ hv

end Project

/-- **Adding a unit keeps the names apart.** -/
theorem NamesDiffer.addUnit {p : Project} (h : NamesDiffer p.units) (u : SourceUnit) :
    NamesDiffer (p.addUnit u).units := by
  rw [Project.units_addUnit]
  split
  · exact h
  · next hnew =>
    refine List.pairwise_append.mpr ⟨h, List.pairwise_singleton _ _, ?_⟩
    intro a ha b hb
    obtain rfl := List.mem_singleton.mp hb
    rw [Bool.eq_false_iff]
    intro hname
    exact hnew (Project.hasUnit_iff.mpr ⟨a, ha, hname⟩)

/-- The units of a project that is made by adding one after another. -/
theorem NamesDiffer.foldl_addUnit {α : Type} {p : Project} (h : NamesDiffer p.units)
    (unitOf : α → SourceUnit) (xs : List α) :
    NamesDiffer (xs.foldl (fun p x => p.addUnit (unitOf x)) p).units := by
  induction xs generalizing p with
  | nil => exact h
  | cons x xs ih => exact ih (h.addUnit (unitOf x))

end PascalSurvey
