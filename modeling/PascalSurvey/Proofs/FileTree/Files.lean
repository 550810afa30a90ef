/-
PascalSurvey/Proofs/FileTree/Files.lean

The files that a directory holds.  A directory holds a file under a name if the tree has a file
where the names of the directory lead and go on with that name (`Holds`).  That is what a path
sees that goes on with the name (`isFile_join_iff`), and what a listing of the directory sees
(`mem_list_and_isFile_iff`).  No directory holds `.` or `..`: the one is a spelling that only a
directory can have, and the other leads back to a directory (`follow_ancestor`).

Two spellings with the same components are one directory (`locate_directory_congr`).
-/
import PascalSurvey.Proofs.FileTree.Listing
import PascalSurvey.Proofs.FileTree.Places

namespace PascalSurvey.FileTree

open Ascii PascalSurvey.Path

variable {t : FileTree}

/-! ### Following paths -/

/-- Every place on the way to a place is a directory. -/
def Ancestors (t : FileTree) (place : List Text) : Prop :=
  ∀ up, up <:+ place → up ≠ place → t.find? up.reverse = some .directory

theorem Ancestors.tail {place : List Text} (h : t.Ancestors place) : t.Ancestors place.tail := by
  cases place with
  | nil => exact h
  | cons name up =>
    refine fun up' hup hne => h up' (hup.trans (List.suffix_cons name up)) ?_
    rintro rfl
    have := hup.length_le
    rw [List.tail_cons, List.length_cons] at this
    omega

theorem locate_eq (t : FileTree) {p : Path} (hp : p ≠ []) (place : List Text)
    (h : t.placeOf p = .ok place.reverse) :
    t.locate p = match t.find? place with
      | none => .error .notFound
      | some (.file bytes) =>
        if wantsDirectory p then .error .notDirectory else .ok (place, .file bytes)
      | some .directory => .ok (place, .directory) := by
  have hempty : p.isEmpty = false := by simpa using hp
  rw [locate, hempty, h]
  simp only [bind, Except.bind, List.reverse_reverse]
  rfl

theorem placeOf_of_locate {p : Path} {place : List Text} {node : Node}
    (h : t.locate p = .ok (place, node)) :
    t.placeOf p = .ok place.reverse ∧ t.find? place = some node := by
  have hp := ne_nil_of_locate h
  cases hfollow : t.placeOf p with
  | error e =>
    have hempty : p.isEmpty = false := by simpa using hp
    rw [locate, hempty, hfollow] at h
    cases h
  | ok place' =>
    rw [locate_eq t hp place'.reverse (by rw [List.reverse_reverse, hfollow])] at h
    split at h
    · cases h
    · next bytes hfind =>
      split at h
      · cases h
      · cases h
        exact ⟨by rw [List.reverse_reverse], hfind⟩
    · next hfind =>
      cases h
      exact ⟨by rw [List.reverse_reverse], hfind⟩

/-- Two spellings with the same components are one directory. -/
theorem locate_directory_congr {p q : Path} {place : List Text} (hq : q ≠ [])
    (hcomponents : components p = components q) (h : t.locate p = .ok (place, .directory)) :
    t.locate q = .ok (place, .directory) := by
  obtain ⟨hplace, hfind⟩ := placeOf_of_locate h
  rw [locate_eq t hq place (placeOf_congr hcomponents ▸ hplace), hfind]

theorem isFile_iff {p : Path} :
    t.isFile p = true ↔ ∃ place bytes, t.locate p = .ok (place, .file bytes) := by
  unfold isFile
  split
  · next names bytes h => simp [h]
  · next h =>
    simp only [Bool.false_eq_true, false_iff]
    rintro ⟨place, bytes, hlocate⟩
    exact h place bytes hlocate

/-- Of the paths that go on with one name only `.` is spelled as a directory. -/
theorem wantsDirectory_join {dir : Path} {name : Text} (hdir : dir ≠ []) (hname : name ≠ [])
    (hslash : slash ∉ name) : wantsDirectory (join dir name) = true ↔ name = [dot] := by
  obtain ⟨q, hjoin, -⟩ := join_eq hdir hslash
  have hlast : (join dir name).getLast? ≠ some slash := by
    rw [hjoin, List.getLast?_append, List.getLast?_cons, List.getLast?_eq_some_getLast hname]
    exact fun h => hslash (Option.some.inj h ▸ List.getLast_mem hname)
  have hends : Text.endsWith (join dir name) "/." = true ↔
      ∃ r, name.reverse ++ slash :: q.reverse = dot :: slash :: r := by
    have hreverse : ("/." : Text).reverse = [dot, slash] := rfl
    rw [Text.endsWith, Text.startsWith, hreverse, Option.isSome_iff_exists, hjoin]
    simp [Text.after?_eq_some_iff]
  rw [wantsDirectory, Bool.or_eq_true, decide_eq_true_eq, hends, or_iff_right hlast]
  constructor
  · rintro ⟨r, h⟩
    rcases hback : name.reverse with - | ⟨b, - | ⟨c, front⟩⟩
    · exact absurd (List.reverse_eq_nil_iff.mp hback) hname
    · rw [hback] at h
      rw [← List.reverse_reverse name, hback, (List.cons.inj h).1]
      rfl
    · rw [hback] at h
      have hc : c = slash := (List.cons.inj (List.cons.inj h).2).1
      exact absurd (List.mem_reverse.mp (by simp [hback, hc])) hslash
  · rintro rfl
    exact ⟨q.reverse, rfl⟩

/-! ### The files of a directory -/

/-- The directory at a path holds a file under a name. -/
def Holds (t : FileTree) (dir : Path) (name : Text) : Prop :=
  ∃ place bytes, t.locate dir = .ok (place, .directory) ∧
    t.find? (place ++ [name]) = some (.file bytes)

theorem mem_entries_of_find? {names : List Text} {node : Node} (hne : names ≠ [])
    (h : t.find? names = some node) : (names, node) ∈ t.entries := by
  have hempty : names.isEmpty = false := by simpa using hne
  rw [find?, hempty, if_neg Bool.false_ne_true] at h
  obtain ⟨l, r, hsplit, -⟩ := List.lookup_eq_some_iff.mp h
  rw [hsplit]
  simp

theorem Holds.isName (ht : t.Named) {dir : Path} {name : Text} (h : t.Holds dir name) :
    IsName name := by
  obtain ⟨place, bytes, -, hfind⟩ := h
  exact ht.entries _ (mem_entries_of_find? (by simp) hfind) name (by simp)

section
variable {dir : Path} {place : List Text} (hdir : t.locate dir = .ok (place, .directory))
include hdir

theorem holds_iff {name : Text} :
    t.Holds dir name ↔ ∃ bytes, t.find? (place ++ [name]) = some (.file bytes) := by
  constructor
  · rintro ⟨place', bytes, hdir', hfind⟩
    rw [hdir] at hdir'
    cases hdir'
    exact ⟨bytes, hfind⟩
  · rintro ⟨bytes, hfind⟩
    exact ⟨place, bytes, hdir, hfind⟩

/-- The names of a directory lead to a path that goes on with one more. -/
theorem placeOf_join_of_isName {name : Text} (hname : IsName name) :
    t.placeOf (join dir name) =
      match t.find? (place ++ [name]) with
      | none => .error .notFound
      | some _ => .ok (place ++ [name]).reverse := by
  obtain ⟨hfollow, hfind⟩ := placeOf_of_locate hdir
  have hplace : (name :: place.reverse).reverse = place ++ [name] := by simp
  rw [placeOf_join t dir (isAbsolute_of_isName hname), hfollow, inner_of_isName hname]
  show t.follow place.reverse [.named name] = _
  rw [follow, List.reverse_reverse, hfind]
  dsimp only
  rw [hplace, ← hplace, List.reverse_reverse]
  cases t.find? (name :: place.reverse).reverse <;> rfl

theorem isFile_join_of_isName {name : Text} (hname : IsName name) :
    t.isFile (join dir name) = true ↔ t.Holds dir name := by
  have hwants : wantsDirectory (join dir name) = false := by
    rw [← Bool.not_eq_true, wantsDirectory_join (ne_nil_of_locate hdir) hname.1 hname.2.1]
    exact hname.2.2.1
  have hne := join_ne_nil (ne_nil_of_locate hdir) hname.2.1
  have hfollow := placeOf_join_of_isName hdir hname
  rw [isFile_iff, holds_iff hdir]
  cases hfind : t.find? (place ++ [name]) with
  | none =>
    rw [hfind] at hfollow
    simp only [reduceCtorEq, exists_false, iff_false]
    rintro ⟨place', bytes, hlocate⟩
    rw [(placeOf_of_locate hlocate).1] at hfollow
    cases hfollow
  | some node =>
    rw [hfind] at hfollow
    rw [locate_eq t hne _ hfollow, hfind, hwants]
    cases node <;> simp

end

/-- **A listing sees the files that its directory holds.** -/
theorem mem_list_and_isFile_iff (ht : t.Named) {dir p : Path} {entries : List Path}
    (h : t.list dir = .ok entries) :
    p ∈ entries ∧ t.isFile p = true ↔ ∃ name, t.Holds dir name ∧ p = join dir name := by
  constructor
  · rintro ⟨hp, hfile⟩
    obtain ⟨place, name, node, hdir, hmem, rfl, -⟩ := exists_of_mem_list ht h hp
    exact ⟨name, (isFile_join_of_isName hdir (ht.entries _ hmem name (by simp))).mp hfile, rfl⟩
  · rintro ⟨name, hholds, rfl⟩
    obtain ⟨place, hdir, rfl⟩ := list_eq_ok_iff.mp h
    refine ⟨(t.order.listing_perm _ _).mem_iff.mpr ?_,
      (isFile_join_of_isName hdir (hholds.isName ht)).mpr hholds⟩
    obtain ⟨bytes, hfind⟩ := (holds_iff hdir).mp hholds
    refine List.mem_filterMap.mpr ⟨_, mem_entries_of_find? (by simp) hfind, ?_⟩
    simp [childName?]

end PascalSurvey.FileTree
