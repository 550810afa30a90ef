/-
PascalSurvey/Proofs/ProjectFile/Sources.lean

The sources that a project file lists.  They are read off its references one by one, in order
(`source?`, `sources_items`), and each of them is looked for at its path in the directory
of the project file (`resolvedPath_of_mem`).
-/
import PascalSurvey.Proofs.ProjectFile.Readings

namespace PascalSurvey.ProjectFile

open Xml (Element)

/-- The references of a project file to units and packages, in order. -/
def references (root : Element) : List Element :=
  (root.all (msbuild "ItemGroup")).flatMap fun group => group.all (msbuild "DCCReference")

/-- The unit that a reference lists; a package is none. -/
def source? (tree : FileTree) (s : Surroundings) (subst : Text → Text) (reference : Element) :
    Option SourceFile :=
  (reference.attribute? "Include").bind fun value =>
    let path := Text.forwardSlashes (subst value)
    if Text.endsWith (Text.toLower path) ".dcp" then none
    else
      let resolvedPath := s.directory.map fun dir => Path.join dir path
      some { path, unitName := stemOf path, found := resolvedPath.map tree.isFile, resolvedPath }

variable {tree : FileTree} {s : Surroundings} {subst : Text → Text} {source : SourceFile}

theorem sources_addReference (items : Items) (reference : Element) :
    (items.addReference tree s subst reference).sources =
      items.sources ++ (source? tree s subst reference).toList := by
  unfold Items.addReference source?
  cases reference.attribute? "Include" with
  | none => exact (List.append_nil _).symm
  | some value =>
    rw [Option.bind_some]
    dsimp only
    split
    · exact (List.append_nil _).symm
    · rfl

theorem sources_foldl_addReference (items : Items) (refs : List Element) :
    (refs.foldl (Items.addReference tree s subst) items).sources =
      items.sources ++ refs.filterMap (source? tree s subst) := by
  induction refs generalizing items with
  | nil => exact (List.append_nil _).symm
  | cons reference rest ih =>
    rw [List.foldl_cons, ih, sources_addReference, List.append_assoc, List.filterMap_cons]
    cases source? tree s subst reference <;> rfl

theorem sources_foldl_addGroup (items : Items) (groups : List Element) :
    (groups.foldl (Items.addGroup tree s subst) items).sources =
      items.sources ++ (groups.flatMap fun group => group.all (msbuild "DCCReference")).filterMap
        (source? tree s subst) := by
  induction groups generalizing items with
  | nil => exact (List.append_nil _).symm
  | cons group rest ih =>
    have hgroup : (items.addGroup tree s subst group).sources = items.sources ++
        (group.all (msbuild "DCCReference")).filterMap (source? tree s subst) :=
      sources_foldl_addReference items _
    rw [List.foldl_cons, ih, hgroup, List.append_assoc, List.flatMap_cons, List.filterMap_append]

/-- **The sources are read off the references one by one.** -/
theorem sources_items (root : Element) :
    ((Readings.ofTree tree s root).items subst).sources =
      (references root).filterMap (source? tree s subst) :=
  sources_foldl_addGroup _ _

theorem resolvedPath_of_source? {reference : Element}
    (h : source? tree s subst reference = some source) :
    source.resolvedPath = s.directory.map (Path.join · source.path) := by
  obtain ⟨value, -, hvalue⟩ := Option.bind_eq_some_iff.mp h
  dsimp only at hvalue
  split at hvalue
  · cases hvalue
  · obtain rfl := Option.some.inj hvalue
    rfl

/-- **A source is looked for at its path in the directory of the project file.** -/
theorem resolvedPath_of_mem {text : Text} {m : Metadata} (h : read tree s text = .ok m)
    (hsource : source ∈ m.sourceFiles) :
    source.resolvedPath = s.directory.map (Path.join · source.path) := by
  unfold read at h
  split at h
  · next root _ =>
    rw [ofTree_eq] at h
    split at h
    · cases h
    · obtain rfl := Except.ok.inj h
      have hmem : source ∈ ((Readings.ofTree tree s root).items
          ((Readings.ofTree tree s root).subst s)).sources := hsource
      rw [sources_items] at hmem
      obtain ⟨reference, -, hreference⟩ := List.mem_filterMap.mp hmem
      exact resolvedPath_of_source? hreference
  · cases h

end PascalSurvey.ProjectFile
