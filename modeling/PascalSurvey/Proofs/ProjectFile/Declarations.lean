/-
PascalSurvey/Proofs/ProjectFile/Declarations.lean

Groups that declare a configuration.  Every declared name has its configuration, in any case of the
name (`exists_configuration?_of_declares`), and it has the settings of the first group that declares
the name and of the groups for its key.  What a later group with the same declaration holds is not
taken up (`defines_declaredTwice`).

Main result: which defines a declared configuration has, with those of its first group among them
(`ofTree_declaredDefines`).
-/
import PascalSurvey.Proofs.ProjectFile.Configurations

namespace PascalSurvey.ProjectFile

open Text
open Xml (Element)

/-- The first group that declares a name, in any case. -/
def firstDeclaring? (gs : List Element) (name : Text) : Option Element :=
  gs.find? fun g => (declaredName? g).any (eqFold · name)

/-- Names that are equal but for case are declared first by the same group. -/
theorem firstDeclaring?_congr {name name' : Text} (h : eqFold name name' = true)
    (gs : List Element) : firstDeclaring? gs name = firstDeclaring? gs name' := by
  have hfold (other : Text) : eqFold other name = eqFold other name' := by
    rw [Bool.eq_iff_iff, eqFold_iff, eqFold_iff, eqFold_iff.mp h]
  simp only [firstDeclaring?, hfold]

theorem exists_firstDeclaring? {gs : List Element} {g : Element} {name : Text} (hg : g ∈ gs)
    (hname : declaredName? g = some name) : ∃ first, firstDeclaring? gs name = some first := by
  rw [← Option.isSome_iff_exists, firstDeclaring?, List.find?_isSome]
  exact ⟨g, hg, by simp [hname, eqFold_iff]⟩

/-- **A declared name has its configuration.** -/
theorem exists_configuration?_of_declares {gs : List Element} {g : Element} {name : Text}
    (hg : g ∈ gs) (hname : declaredName? g = some name) :
    ∃ c, configuration? (configurations (gs.map Role.ofGroup)) name = some c := by
  have hdeclaration : declaration? g =
      some ({ Configuration.named name with key := declaredKey g }.apply (.ofGroup g)) := by
    rw [declaration?, hname]
    rfl
  have hdeclared : (configuration? (declared gs) name).isSome = true := by
    rw [declared, declaredConfigurations_map, configuration?_foldl_addConfiguration]
    exact isSome_configuration?.mpr
      ⟨_, List.mem_filterMap.mpr ⟨g, hg, hdeclaration⟩, eqFold_iff.mpr rfl⟩
  have hne : (declared gs).isEmpty = false := by
    rw [Bool.eq_false_iff]
    intro hempty
    rw [declared_eq_nil (List.isEmpty_iff.mp hempty) g hg] at hname
    cases hname
  rw [configurations_map, hne, if_neg Bool.false_ne_true,
    configuration?_map (name_completed gs), ← Option.isSome_iff_exists, Option.isSome_map]
  exact hdeclared

/-- The defines of a configuration are the items of the first group that declares it and of the
groups for its key. -/
theorem memFold_defines {gs : List Element} {c : Configuration}
    (hc : c ∈ configurations (gs.map Role.ofGroup)) {first : Element}
    (hfirst : firstDeclaring? gs c.name = some first) (item : Text) :
    memFold item c.defines = true ↔
      memFold item (listItems "DCC_Define" first) = true ∨
        ∃ k ∈ gs, isFor (configurations (gs.map Role.ofGroup)) c k = true ∧
          memFold item (listItems "DCC_Define" k) = true := by
  have hgroups : groupsOf gs (configurations (gs.map Role.ofGroup)) c =
      first :: gs.filter (isFor (configurations (gs.map Role.ofGroup)) c) := by
    rw [firstDeclaring?] at hfirst
    rw [groupsOf, hfirst]
    rfl
  have hitems : memFold item c.defines =
      (first :: gs.filter (isFor (configurations (gs.map Role.ofGroup)) c)).any fun g =>
        memFold item (listItems "DCC_Define" g) := by
    rw [(lists_of_mem hc).1, ownItems, memFold_dedupFold_eq, memFold, List.any_flatMap, hgroups]
    rfl
  rw [hitems, List.any_eq_true]
  simp only [List.mem_cons, List.mem_filter, exists_eq_or_imp, and_assoc]

theorem eqFold_of_configuration? {cs : List Configuration} {name : Text} {c : Configuration}
    (h : configuration? cs name = some c) : eqFold c.name name = true := by
  rw [configuration?] at h
  have hfound := List.find?_some h
  exact hfound

variable {tree : FileTree} {s : Surroundings} {root : Element} {m : Metadata} {g : Element}
  {name : Text}

/-- **Main.**  Where a project file can be read and a group declares a name, there is one
configuration of this name in any case.  An item is among its defines, in any case, if and only if
it is an item of the first group that declares the name or of a group with settings for the key of
this configuration; so if the group is itself the first, each of its items is among them. -/
theorem ofTree_declaredDefines (h : ofTree tree s root = .ok m) (hg : g ∈ conditionedGroups root)
    (hname : declaredName? g = some name) :
    ∃ c first, configuration? m.configurations name = some c ∧ NamesApart m.configurations ∧
      firstDeclaring? (conditionedGroups root) name = some first ∧
      (∀ item, memFold item c.defines = true ↔
        memFold item (listItems "DCC_Define" first) = true ∨
          ∃ k ∈ conditionedGroups root, isFor m.configurations c k = true ∧
            memFold item (listItems "DCC_Define" k) = true) ∧
      (g = first → ∀ item ∈ listItems "DCC_Define" g, memFold item c.defines = true) := by
  obtain ⟨first, hfirst⟩ := exists_firstDeclaring? hg hname
  obtain ⟨d, hd⟩ := exists_configuration?_of_declares hg hname
  have hconfigurations := configurations_of_ofTree h
  -- the configuration of the metadata is `d` with its variables replaced, with the defines of `d`
  have hlookup : configuration? m.configurations name =
      some (d.substituted ((Readings.ofTree tree s root).subst s)) := by
    rw [hconfigurations, configuration?_map (f := .substituted _) (fun _ => rfl), hd]
    rfl
  have hdefines (item : Text) : memFold item d.defines = true ↔
      memFold item (listItems "DCC_Define" first) = true ∨
        ∃ k ∈ conditionedGroups root,
          isFor m.configurations (d.substituted ((Readings.ofTree tree s root).subst s)) k = true ∧
            memFold item (listItems "DCC_Define" k) = true := by
    have hfirst' : firstDeclaring? (conditionedGroups root) d.name = some first := by
      rw [firstDeclaring?_congr (eqFold_of_configuration? hd), hfirst]
    rw [hconfigurations, isFor_map (f := .substituted _) (fun _ => rfl) (fun _ => rfl)]
    exact memFold_defines (List.mem_of_find?_eq_some hd) hfirst' item
  have hapart : NamesApart m.configurations := by
    rw [hconfigurations]
    exact (namesApart_configurations (conditionedGroups root)).congr
      (by simp [Configuration.substituted])
  refine ⟨_, first, hlookup, hapart, hfirst, hdefines, ?_⟩
  rintro rfl item hitem
  exact (hdefines item).mpr (.inl (memFold_of_mem hitem))

/-- A group with defines. -/
def defining (condition defines : Text) : Element :=
  ⟨none, "PropertyGroup", [("Condition", condition)], [], [⟨none, "DCC_Define", [], defines, []⟩]⟩

/-- `Debug` on one platform. -/
def debugNarrow : Element :=
  defining "'$(Config)|$(Platform)'=='Debug|Win32'" "TRACE;$(DCC_Define)"

/-- `Debug` on another platform, in small letters. -/
def debugWide : Element := defining "'$(Config)|$(Platform)'=='debug|Win64'" "WIDE"

/-- A project file with a group for each platform. -/
def twoPlatforms : Element := ⟨none, "Project", [], [], [debugNarrow, debugWide]⟩

theorem ofTree_twoPlatforms :
    ∃ m c, ofTree .empty ⟨none, none, none⟩ twoPlatforms = .ok m ∧
      debugNarrow ∈ conditionedGroups twoPlatforms ∧
      declaredName? debugNarrow = some (ofString "Debug") ∧
      listItems "DCC_Define" debugNarrow = Text.ofStrings ["TRACE"] ∧
      configuration? m.configurations "Debug" = some c ∧ memFold "TRACE" c.defines = true := by
  have hread : (ofTree .empty ⟨none, none, none⟩ twoPlatforms).toOption.map
      (fun m => m.configurations.length) = some 1 := by
    decide +kernel
  have hmem : debugNarrow ∈ conditionedGroups twoPlatforms := List.mem_cons_self
  have hname : declaredName? debugNarrow = some (ofString "Debug") := by
    decide +kernel
  have hitems : listItems "DCC_Define" debugNarrow = Text.ofStrings ["TRACE"] := by
    decide +kernel
  have hfirst : firstDeclaring? (conditionedGroups twoPlatforms) "Debug" = some debugNarrow := by
    have hfold : (declaredName? debugNarrow).any (eqFold · (ofString "Debug")) = true := by
      decide +kernel
    exact List.find?_cons_of_pos hfold
  obtain ⟨m, hm, -⟩ := exists_ok_of_toOption hread
  obtain ⟨c, first, hc, -, hfirst', -, hown⟩ := ofTree_declaredDefines hm hmem hname
  rw [hfirst] at hfirst'
  have htrace := hown (Option.some.inj hfirst') (ofString "TRACE") (hitems ▸ List.mem_cons_self)
  exact ⟨m, c, hm, hmem, hname, hitems, hc, htrace⟩

/-- What the second group defines is not taken up. -/
theorem defines_declaredTwice :
    ∃ m c, ofTree .empty ⟨none, none, none⟩ twoPlatforms = .ok m ∧
      debugWide ∈ conditionedGroups twoPlatforms ∧
      declaredName? debugWide = some (ofString "debug") ∧
      ofString "WIDE" ∈ listItems "DCC_Define" debugWide ∧
      configuration? m.configurations "debug" = some c ∧ memFold "WIDE" c.defines = false := by
  have hread : (ofTree .empty ⟨none, none, none⟩ twoPlatforms).toOption.map
      (fun m => (configuration? m.configurations "debug").map (·.defines)) =
        some (some (Text.ofStrings ["TRACE"])) := by
    decide +kernel
  obtain ⟨m, hm, hread⟩ := exists_ok_of_toOption hread
  obtain ⟨c, hc, hdefines⟩ := Option.map_eq_some_iff.mp hread
  refine ⟨m, c, hm, List.mem_cons_of_mem _ List.mem_cons_self, ?_, ?_, hc, ?_⟩
  · decide +kernel
  · decide +kernel
  · rw [hdefines]
    decide +kernel

end PascalSurvey.ProjectFile
