/-
PascalSurvey/Proofs/FileTree/Places.lean

What a path leads to.  Components are followed one after the other (`follow_append`), so a relative
path leads on from where the path in front of it leads (`placeOf_join`), and by itself from the
working directory, which has to be a directory (`find?_of_placeOf_nil`).  The root always is one.
So a path to a file has a parent (`exists_parent?_of_isFile`).
-/
import PascalSurvey.FileTree
import PascalSurvey.Proofs.Path.Relative

namespace PascalSurvey.FileTree

open PascalSurvey.Path

variable {t : FileTree}

/-! ### What exists -/

theorem exists?_of_isFile {p : Path} (h : t.isFile p = true) : t.exists? p = true := by
  unfold isFile at h
  unfold exists?
  split at h
  · next hlocate => rw [hlocate]
  · cases h

theorem exists?_of_read {p : Path} {bytes : List UInt8} (h : t.read p = .ok bytes) :
    t.exists? p = true := by
  unfold read at h
  unfold exists?
  split at h
  · next hlocate => rw [hlocate]
  · cases h
  · cases h

theorem isFile_of_list {p : Path} {entries : List Path} (h : t.list p = .ok entries) :
    t.exists? p = true ∧ t.isFile p = false := by
  unfold list at h
  unfold exists? isFile
  split at h
  · next hlocate => simp [hlocate]
  · cases h
  · cases h

/-! ### Following components -/

theorem follow_append (t : FileTree) (place : List Text) (cs ds : List Component) :
    t.follow place (cs ++ ds) = (t.follow place cs).bind fun place' => t.follow place' ds := by
  fun_induction t.follow place cs with
  | case1 => rfl
  | _ => simp_all [follow, Except.bind]

/-- A dot leads from a directory to itself, and from nothing else. -/
theorem follow_current {place place' : List Text} (h : t.follow place [.current] = .ok place') :
    place' = place ∧ t.find? place.reverse = some .directory := by
  unfold follow at h
  split at h
  · cases h
  · cases h
  · next hdirectory => exact ⟨(Except.ok.inj h).symm, hdirectory⟩

/-- A second dot makes no difference. -/
theorem follow_current_current (t : FileTree) (place : List Text) (cs : List Component) :
    t.follow place (.current :: .current :: cs) = t.follow place (.current :: cs) := by
  cases hfind : t.find? place.reverse with
  | none => simp only [follow, hfind]
  | some node => cases node <;> simp only [follow, hfind]

/-- Components that end with the root lead there. -/
theorem eq_nil_of_follow_root {place place' : List Text} {cs : List Component}
    (h : t.follow place (cs ++ [.root]) = .ok place') : place' = [] := by
  rw [follow_append] at h
  cases hcs : t.follow place cs with
  | error e =>
    rw [hcs] at h
    cases h
  | ok place₁ =>
    rw [hcs, Except.bind, follow] at h
    split at h
    · cases h
    · cases h
    · exact (Except.ok.inj h).symm

/-! ### The place of a path -/

theorem placeOf_nil (t : FileTree) :
    t.placeOf [] = (t.follow [] (t.home.map .named)).bind fun place => t.follow place [.current] := by
  rw [← follow_append]
  rfl

/-- The working directory is a directory if it is there. -/
theorem find?_of_placeOf_nil {place : List Text} (h : t.placeOf [] = .ok place) :
    t.find? place.reverse = some .directory := by
  rw [placeOf_nil] at h
  cases hhome : t.follow [] (t.home.map .named) with
  | error e =>
    rw [hhome] at h
    cases h
  | ok home =>
    rw [hhome] at h
    obtain ⟨rfl, hdirectory⟩ := follow_current h
    exact hdirectory

theorem placeOf_congr {p q : Path} (h : components p = components q) : t.placeOf p = t.placeOf q := by
  rw [placeOf, placeOf, wayTo, wayTo, isAbsolute_congr h, h]

theorem placeOf_of_isAbsolute {x : Path} (hx : isAbsolute x = true) :
    t.placeOf x = t.follow [] (components x) := by
  rw [placeOf, wayTo, if_pos hx]

/-- A relative path leads on from the working directory. -/
theorem placeOf_of_relative {x : Path} (hx : isAbsolute x = false) :
    t.placeOf x = (t.placeOf []).bind fun place => t.follow place (inner x) := by
  have hway : t.placeOf x =
      t.follow [] (t.home.map .named ++ ([.current] ++ inner x)) := by
    rw [placeOf, wayTo, hx, if_neg Bool.false_ne_true]
    rcases components_of_relative hx with h | h
    · rw [h]
      rfl
    · rw [h, follow_append, follow_append]
      simp only [follow_current_current]
      rfl
  rw [hway, ← List.append_assoc, follow_append]
  rfl

/-- **A relative path leads on from where the path in front of it leads.** -/
theorem placeOf_join (t : FileTree) (p : Path) {x : Path} (hx : isAbsolute x = false) :
    t.placeOf (join p x) = (t.placeOf p).bind fun place => t.follow place (inner x) := by
  by_cases hp : p = []
  · rw [hp, join_nil, placeOf_of_relative hx]
  · have hway : t.wayTo (join p x) = t.wayTo p ++ inner x := by
      rw [wayTo, wayTo, isAbsolute_join hp hx, components_join_of_relative hp hx]
      split
      · rfl
      · rw [List.append_assoc, List.cons_append]
    rw [placeOf, hway, follow_append]
    rfl

/-! ### Files -/

/-- A file is found by following the components of its path. -/
theorem placeOf_of_isFile {p : Path} (h : t.isFile p = true) :
    p ≠ [] ∧ ∃ place bytes, t.placeOf p = .ok place ∧
      t.find? place.reverse = some (.file bytes) := by
  unfold isFile locate at h
  split at h
  · next names bytes hlocate =>
    split at hlocate
    · cases hlocate
    · next hempty =>
      refine ⟨by simpa using hempty, ?_⟩
      cases hplace : t.placeOf p with
      | error e =>
        rw [hplace] at hlocate
        cases hlocate
      | ok place =>
        rw [hplace] at hlocate
        simp only [bind, Except.bind] at hlocate
        split at hlocate
        · cases hlocate
        · next bytes' hfind => exact ⟨place, bytes', rfl, hfind⟩
        · cases hlocate
  · cases h

/-- A path to a file names more than the root, so it has a parent. -/
theorem exists_parent?_of_isFile {p : Path} (h : t.isFile p = true) :
    ∃ dir, parent? p = some dir := by
  obtain ⟨hp, place, bytes, hplace, hfind⟩ := placeOf_of_isFile h
  cases hparent : parent? p with
  | some dir => exact ⟨dir, rfl⟩
  | none =>
    -- such a path can only end at the root, which is no file
    obtain ⟨before, hway⟩ : ∃ before, t.wayTo p = before ++ [.root] := by
      rw [wayTo, components_of_parent?_none hp hparent]
      split
      · exact ⟨[], rfl⟩
      · exact ⟨t.home.map .named ++ [.current], by simp⟩
    rw [placeOf, hway] at hplace
    rw [eq_nil_of_follow_root hplace] at hfind
    cases hfind

end PascalSurvey.FileTree
