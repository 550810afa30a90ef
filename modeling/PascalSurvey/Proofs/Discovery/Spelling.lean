/-
PascalSurvey/Proofs/Discovery/Spelling.lean

The references of a program from two spellings of the root.  From two paths that lead to the same
place the same files are seen, and both list the same files where both can be opened.  Only the
empty path cannot, so from there a unit is missed that the working directory has in another letter
case only (`FoldedOnly`).

Main result: from two spellings of the root, the references of a program come to the same, unless
one of them is empty and misses a unit (`answers_congr`).
-/
import PascalSurvey.Proofs.Discovery.Outcome
import PascalSurvey.Proofs.Discovery.SearchPath
import PascalSurvey.Proofs.ProjectFile.Directory

namespace PascalSurvey.Discovery

open Ascii PascalSurvey.Path FileTree

variable {tree : FileTree} {c : Config}

/-! ### The file of a unit -/

/-- The working directory has a file for one of some names, and none that is spelled like them. -/
def FoldedOnly (tree : FileTree) (names : List Text) : Prop :=
  Supplies tree names "." ∧ exactFile? tree "." names = none

/-- A listing gives a file exactly if the directory has one. -/
theorem isSome_foldedFile?_iff (ht : tree.Named) (dir : Path) (names : List Text) :
    (foldedFile? tree dir names).isSome = true ↔ ∃ name ∈ names, HoldsFolded tree dir name := by
  cases hlist : tree.list dir with
  | ok entries =>
    rw [← not_iff_not, Option.not_isSome_iff_eq_none, (foldedFile?_spec ht hlist names).1]
    simp only [not_exists, not_and]
  | error e =>
    -- a directory that has a file can be listed
    rw [foldedFile?, hlist]
    constructor
    · intro h
      cases h
    · rintro ⟨name, -, file, ⟨place, bytes, hdir, -⟩, -⟩
      rw [list_eq_ok_iff.mpr ⟨place, hdir, rfl⟩] at hlist
      cases hlist

theorem HoldsFolded.congr {p q : Path} {name : Text} (h : tree.SamePlace p q) (hq : q ≠ [])
    (hp : HoldsFolded tree p name) : HoldsFolded tree q name := by
  obtain ⟨file, hholds, hfold⟩ := hp
  exact ⟨file, h.holds hq hholds, hfold⟩

theorem isSome_exactFile?_congr {p q : Path} (h : tree.SamePlace p q) (names : List Text) :
    (exactFile? tree p names).isSome = (exactFile? tree q names).isSome := by
  rw [exactFile?, exactFile?, List.isSome_find?, List.isSome_find?, List.any_map, List.any_map]
  congr 1
  funext name
  exact h.isFile_join name

/-- **In one directory a unit is found under both spellings**, unless one of them is empty and only
the listing has the file. -/
theorem isSome_fileIn?_congr (ht : tree.Named) {extensions : List Text} {unitName : Text}
    {p q : Path} (h : tree.SamePlace p q) (hq : q ≠ [])
    (hspelled : p = [] → ¬FoldedOnly tree (extensions.map (unitName ++ ·))) :
    (fileIn? tree extensions unitName p).isSome = (fileIn? tree extensions unitName q).isSome := by
  rw [fileIn?, fileIn?, Option.isSome_or, Option.isSome_or,
    isSome_exactFile?_congr h (extensions.map (unitName ++ ·))]
  cases hexact : (exactFile? tree q (extensions.map (unitName ++ ·))).isSome with
  | true => rfl
  | false =>
    rw [Bool.false_or, Bool.false_or, Bool.eq_iff_iff, isSome_foldedFile?_iff ht,
      isSome_foldedFile?_iff ht]
    constructor
    · rintro ⟨name, hname, hfolded⟩
      exact ⟨name, hname, hfolded.congr h hq⟩
    · rintro ⟨name, hname, hfolded⟩
      by_cases hp : p = []
      · have hhere : tree.SamePlace q "." := by
          rw [hp] at h
          exact h.symm.trans (samePlace_here tree)
        have hsupplies : Supplies tree (extensions.map (unitName ++ ·)) "." :=
          ⟨name, hname, .inr (hfolded.congr hhere (List.cons_ne_nil _ _))⟩
        refine absurd ⟨hsupplies, ?_⟩ (hspelled hp)
        rw [← Option.not_isSome_iff_eq_none, ← isSome_exactFile?_congr hhere, hexact]
        exact Bool.false_ne_true
      · exact ⟨name, hname, hfolded.congr h.symm hp⟩

/-! ### The directories -/

/-- What a search path adds to the root; a blank one, and one with a variable, adds nothing. -/
def searchSuffix? (entry : Text) : Option Path :=
  let entry := Text.forwardSlashes (Text.trim entry)
  if entry.isEmpty || Text.contains "$(" entry then none else some entry

theorem searchDirectory?_eq (root : Path) (entry : Text) :
    searchDirectory? root entry = (searchSuffix? entry).map (Path.join root) := by
  unfold searchDirectory? searchSuffix?
  dsimp only
  split <;> rfl

theorem ne_nil_of_searchSuffix? {entry : Text} {x : Path} (h : searchSuffix? entry = some x) :
    x ≠ [] := by
  unfold searchSuffix? at h
  dsimp only at h
  split at h
  · cases h
  · next hkept =>
    obtain rfl := Option.some.inj h
    rintro hnil
    rw [hnil] at hkept
    exact hkept rfl

theorem join_ne_nil_of_ne_nil (p : Path) {x : Path} (hx : x ≠ []) : Path.join p x ≠ [] := by
  unfold Path.join
  split
  · exact hx
  · split
    · exact List.append_ne_nil_of_right_ne_nil p hx
    · simp

/-- A unit has a file exactly if the root or the directory of a search path has one for it. -/
theorem isSome_findFile?_iff (ht : tree.Named) (extensions : List Text) (root : Path)
    (searchPaths : List Text) (unitName : Text) :
    (findFile? tree extensions (searchDirectories root searchPaths) unitName).isSome = true ↔
      (fileIn? tree extensions unitName root).isSome = true ∨
        ∃ x ∈ searchPaths.filterMap searchSuffix?,
          (fileIn? tree extensions unitName (Path.join root x)).isSome = true := by
  have hsame (p q : Path) (hpq : Path.same p q = true)
      (hp : (fileIn? tree extensions unitName p).isSome = true) :
      (fileIn? tree extensions unitName q).isSome = true := by
    have hcomponents : components p = components q := beq_iff_eq.mp hpq
    by_cases hq : q = []
    · have hp' : p = [] := by
        refine Classical.not_not.mp fun hne => components_ne_nil hne ?_
        rw [hcomponents, hq]
        rfl
      rwa [hq, ← hp']
    · have hp' : p ≠ [] := by
        rintro rfl
        exact components_ne_nil hq hcomponents.symm
      rwa [← isSome_fileIn?_congr ht (.of_components hcomponents) hq fun h => absurd h hp']
  have hdirs : searchPaths.filterMap (searchDirectory? root) =
      (searchPaths.filterMap searchSuffix?).map (Path.join root) := by
    rw [List.map_filterMap]
    exact congrArg (List.filterMap · searchPaths) (funext (searchDirectory?_eq root))
  rw [findFile?, List.findSome?_isSome_iff,
    (sameDirectories_searchDirectories root searchPaths).exists_iff hsame, hdirs]
  simp only [List.mem_cons, List.mem_map, exists_eq_or_imp, exists_exists_and_eq_and]

/-- **A unit is found from both spellings of the root.** -/
theorem isSome_findFile?_congr (ht : tree.Named) {extensions : List Text} {root root' : Path}
    (h : tree.SamePlace root root') (hroot' : root' ≠ []) {unitName : Text}
    (hspelled : root = [] → ¬FoldedOnly tree (extensions.map (unitName ++ ·)))
    (searchPaths : List Text) :
    (findFile? tree extensions (searchDirectories root searchPaths) unitName).isSome =
      (findFile? tree extensions (searchDirectories root' searchPaths) unitName).isSome := by
  rw [Bool.eq_iff_iff, isSome_findFile?_iff ht, isSome_findFile?_iff ht,
    isSome_fileIn?_congr ht h hroot' hspelled]
  refine or_congr_right (exists_congr fun x => and_congr_right fun hx => ?_)
  obtain ⟨entry, -, hentry⟩ := List.mem_filterMap.mp hx
  have hne := ne_nil_of_searchSuffix? hentry
  rw [isSome_fileIn?_congr ht (h.join x) (join_ne_nil_of_ne_nil root' hne)
    fun hnil => absurd hnil (join_ne_nil_of_ne_nil root hne)]

/-! ### The references -/

/-- **The references come to the same under both spellings of the root.** -/
theorem answers_congr (ht : tree.Named) {root root' : Path} (h : tree.SamePlace root root')
    (hroot' : root' ≠ []) {uses : List Outline.UsesEntry}
    {sources sources' : List ProjectFile.SourceFile} (searchPaths : List Text)
    (hspelled : root = [] → ∀ entry ∈ uses, isForeign c.scan.extraSystemPrefixes entry = false →
      ¬FoldedOnly tree (c.extensions.map (entry.name ++ ·)))
    (hsources : sources'.map (ProjectFile.SourceFile.outcome tree) =
      sources.map (ProjectFile.SourceFile.outcome tree)) :
    (references tree c root (searchDirectories root searchPaths) uses sources).map answerOf =
      (references tree c root' (searchDirectories root' searchPaths) uses sources').map answerOf := by
  have hanswers (root : Path) (sources : List ProjectFile.SourceFile) :
      sources.map (answerOf ∘ ofSource tree root) =
        (sources.map (ProjectFile.SourceFile.outcome tree)).map
          fun (name, found) => answer name found .missingFile := by
    rw [List.map_map]
    exact List.map_congr_left fun source _ => answer_ofSource tree root source
  unfold references
  rw [List.map_append, List.map_append, List.map_map, List.map_map, List.map_map, List.map_map,
    hanswers root, hanswers root', hsources]
  congr 1
  refine List.map_congr_left fun entry hentry => ?_
  obtain ⟨hmem, hwanted⟩ := List.mem_filter.mp hentry
  have hfound := isSome_findFile?_congr ht h hroot'
    (fun hnil => hspelled hnil entry hmem (by simpa using hwanted)) searchPaths
  rw [Function.comp, Function.comp, answer_ofUses, answer_ofUses, hfound]
  simp only [h.isFile_join]

end PascalSurvey.Discovery
