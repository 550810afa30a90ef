/-
PascalSurvey/Proofs/FileTree/SamePlace.lean

Paths that lead to the same place.  Two paths that lead there see the same files under every
path that goes on from them (`SamePlace.isFile_join`), and hold the same files where both can be
opened (`SamePlace.holds`).  A relative path and the same path behind a single dot lead to one place
(`SamePlace.of_current`), and so do the ways back from them (`samePlace_parent`).

The empty path leads to the working directory as `.` does, and it can be joined; but unlike `.`
it cannot be opened.  That is the only difference between them.
-/
import PascalSurvey.Proofs.FileTree.Files

namespace PascalSurvey.FileTree

open Ascii PascalSurvey.Path

variable {t : FileTree} {p q : Path}

/-- Two paths lead to the same place, or nowhere for the same reason. -/
def SamePlace (t : FileTree) (p q : Path) : Prop := t.placeOf p = t.placeOf q

theorem SamePlace.of_components (h : components p = components q) : t.SamePlace p q :=
  placeOf_congr h

/-- **Two paths that lead to the same place go on to the same places.** -/
theorem SamePlace.join (h : t.SamePlace p q) (x : Path) : t.SamePlace (join p x) (join q x) := by
  cases hx : isAbsolute x with
  | true =>
    rw [join_of_isAbsolute hx, join_of_isAbsolute hx]
    exact rfl
  | false => rw [SamePlace, placeOf_join t p hx, placeOf_join t q hx, show t.placeOf p = _ from h]

/-- A dot at the beginning of a relative path makes no difference. -/
theorem SamePlace.of_current (hp : isAbsolute p = false)
    (h : components q = .current :: components p) : t.SamePlace p q := by
  have hq : isAbsolute q = false := by
    rw [← root_notMem_components] at hp ⊢
    rw [h]
    exact List.not_mem_cons_of_ne_of_not_mem (by simp) hp
  -- the way from the working directory has a dot in front already
  rw [SamePlace, placeOf, placeOf, wayTo, wayTo, hp, hq, if_neg Bool.false_ne_true,
    if_neg Bool.false_ne_true, h, follow_append, follow_append]
  simp only [follow_current_current]

/-- The empty path and the dot are both the working directory. -/
theorem samePlace_here (t : FileTree) : t.SamePlace [] "." := .of_current rfl rfl

/-- The ways back from a path and from the same path behind a dot lead to one place. -/
theorem samePlace_parent {dir dir' : Path} (hdir : parent? p = some dir)
    (hdir' : parent? (Path.join "." p) = some dir') : t.SamePlace dir dir' := by
  have hback := components_parent? hdir
  have hback' := components_parent? hdir'
  cases hp : isAbsolute p with
  | true =>
    rw [join_of_isAbsolute hp] at hback'
    exact .of_components (hback.trans hback'.symm)
  | false =>
    rw [components_join_here hp] at hback'
    rcases components_of_relative hp with h | h
    · have hne : inner p ≠ [] := by
        refine h ▸ components_ne_nil ?_
        rintro rfl
        cases hdir
      have hdirRelative : isAbsolute dir = false := by
        rw [← root_notMem_components] at hp ⊢
        rw [hback]
        exact fun hmem => hp ((List.dropLast_sublist _).mem hmem)
      refine .of_current hdirRelative ?_
      rw [hback, hback', h, List.dropLast_cons_of_ne_nil hne]
    · exact .of_components (by rw [hback, hback', h])

/-! ### Files -/

/-- A path that ends like a relative path, and so asks for a directory if that one does. -/
theorem wantsDirectory_append (pre : Path) {x : Path} (hx : x ≠ []) (hdot : x ≠ [dot]) :
    wantsDirectory (pre ++ x) = wantsDirectory x := by
  have hlast : (pre ++ x).getLast? = x.getLast? := by
    rw [List.getLast?_append, List.getLast?_eq_some_getLast hx]
    rfl
  have hends : Text.endsWith (pre ++ x) "/." = Text.endsWith x "/." := by
    have hreverse : ("/." : Text).reverse = [dot, slash] := rfl
    rw [Text.endsWith, Text.endsWith, hreverse, List.reverse_append]
    rcases hback : x.reverse with - | ⟨b, - | ⟨c, front⟩⟩
    · exact absurd (List.reverse_eq_nil_iff.mp hback) hx
    · have hb : dot ≠ b := by
        rintro rfl
        exact hdot (by rw [← List.reverse_reverse x, hback]; rfl)
      simp [Text.startsWith, Text.after?, hb]
    · simp only [Text.startsWith, Text.after?, List.cons_append]
      split
      · split <;> rfl
      · rfl
  rw [wantsDirectory, wantsDirectory, hlast, hends]

theorem join_append (p : Path) {x : Path} (hx : isAbsolute x = false) :
    ∃ pre, Path.join p x = pre ++ x := by
  unfold Path.join
  rw [hx, if_neg Bool.false_ne_true]
  split
  · exact ⟨p, rfl⟩
  · exact ⟨p ++ [slash], by simp⟩

/-- A path to a file leads to the file and does not ask for a directory. -/
theorem isFile_iff_placeOf : t.isFile p = true ↔
    (∃ place bytes, t.placeOf p = .ok place ∧
      t.find? place.reverse = some (.file bytes)) ∧ wantsDirectory p = false := by
  constructor
  · intro h
    obtain ⟨place, bytes, hlocate⟩ := isFile_iff.mp h
    obtain ⟨hfollow, hfind⟩ := placeOf_of_locate hlocate
    refine ⟨⟨place.reverse, bytes, hfollow, by rwa [List.reverse_reverse]⟩, ?_⟩
    rw [locate_eq t (ne_nil_of_locate hlocate) place hfollow, hfind] at hlocate
    cases hwants : wantsDirectory p with
    | false => rfl
    | true =>
      rw [hwants] at hlocate
      cases hlocate
  · rintro ⟨⟨place, bytes, hfollow, hfind⟩, hwants⟩
    have hp : p ≠ [] := by
      rintro rfl
      rw [find?_of_placeOf_nil hfollow] at hfind
      cases hfind
    refine isFile_iff.mpr ⟨place.reverse, bytes, ?_⟩
    rw [locate_eq t hp place.reverse (by rwa [List.reverse_reverse]), hfind, hwants]
    rfl

theorem SamePlace.locate (h : t.SamePlace p q) (hp : p ≠ []) (hq : q ≠ [])
    (hwants : wantsDirectory p = wantsDirectory q) : t.locate p = t.locate q := by
  have hp : p.isEmpty = false := by simpa using hp
  have hq : q.isEmpty = false := by simpa using hq
  rw [FileTree.locate, FileTree.locate, hp, hq, hwants, show t.placeOf p = _ from h]

/-- No file is found at a path that goes on with nothing or a dot. -/
theorem isFile_join_self (t : FileTree) (p : Path) {x : Path} (hx : x = [] ∨ x = [dot]) :
    t.isFile (Path.join p x) = false := by
  rw [← Bool.not_eq_true, isFile_iff_placeOf]
  rintro ⟨⟨place, bytes, hfollow, hfind⟩, hwants⟩
  by_cases hp : p = []
  · -- what is left is the working directory, which is no file
    have hnil : t.placeOf [] = .ok place := by
      rw [hp, join_nil] at hfollow
      rcases hx with rfl | rfl
      · exact hfollow
      · exact (samePlace_here t).trans hfollow
    rw [find?_of_placeOf_nil hnil] at hfind
    cases hfind
  · have hrelative : isAbsolute x = false := by
      rcases hx with rfl | rfl <;> rfl
    obtain ⟨q, hjoin, -⟩ := join_eq_of_relative hp hrelative
    rw [hjoin, wantsDirectory] at hwants
    rcases hx with rfl | rfl
    · simp at hwants
    · simp [Text.endsWith, Text.startsWith, Text.after?,
        show ("/." : Text).reverse = [dot, slash] from rfl] at hwants

/-- Under a path that goes on, two paths that lead to the same place find the same. -/
theorem SamePlace.locate_join (h : t.SamePlace p q) {x : Path} (hx : x ≠ []) (hdot : x ≠ [dot]) :
    t.locate (Path.join p x) = t.locate (Path.join q x) := by
  cases habs : isAbsolute x with
  | true => rw [join_of_isAbsolute habs, join_of_isAbsolute habs]
  | false =>
    obtain ⟨pre, hpre⟩ := join_append p habs
    obtain ⟨pre', hpre'⟩ := join_append q habs
    refine (h.join x).locate ?_ ?_ ?_
    · rw [hpre]
      exact List.append_ne_nil_of_right_ne_nil pre hx
    · rw [hpre']
      exact List.append_ne_nil_of_right_ne_nil pre' hx
    · rw [hpre, hpre', wantsDirectory_append pre hx hdot, wantsDirectory_append pre' hx hdot]

/-- **They see the same files.** -/
theorem SamePlace.isFile_join (h : t.SamePlace p q) (x : Path) :
    t.isFile (Path.join p x) = t.isFile (Path.join q x) := by
  by_cases hx : x = [] ∨ x = [dot]
  · rw [isFile_join_self t p hx, isFile_join_self t q hx]
  · obtain ⟨hnil, hdot⟩ := not_or.mp hx
    rw [isFile, isFile, h.locate_join hnil hdot]

theorem isFile_of_read {bytes : List UInt8} (h : t.read p = .ok bytes) : t.isFile p = true := by
  unfold read at h
  split at h
  · next hlocate => exact isFile_iff.mpr ⟨_, _, hlocate⟩
  · cases h
  · cases h

/-! ### Directories -/

/-- Two paths that lead to the same place open the same directory. -/
theorem SamePlace.locate_directory (h : t.SamePlace p q) (hq : q ≠ []) {place : List Text}
    (hp : t.locate p = .ok (place, .directory)) : t.locate q = .ok (place, .directory) := by
  obtain ⟨hfollow, hfind⟩ := placeOf_of_locate hp
  rw [locate_eq t hq place (Eq.trans h.symm hfollow), hfind]

/-- **They hold the same files**, where both can be opened. -/
theorem SamePlace.holds (h : t.SamePlace p q) (hq : q ≠ []) {name : Text} (hp : t.Holds p name) :
    t.Holds q name := by
  obtain ⟨place, bytes, hdir, hfind⟩ := hp
  exact ⟨place, bytes, h.locate_directory hq hdir, hfind⟩

end PascalSurvey.FileTree
