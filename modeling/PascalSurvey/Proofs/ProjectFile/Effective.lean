/-
PascalSurvey/Proofs/ProjectFile/Effective.lean

The build settings in effect.  They are those of the base and those of the active configuration, one
after the other without repetitions: the groups without a condition and the groups for `Base` make
the base (`baseGroups`), and the group that declares the active configuration and the groups for its
key make the rest (`groupsOf`).

Two trees that differ only in the defines and search paths of other configurations (`SameFor`) have
the same own groups, element by element, and so the same settings in effect.

Main result: `ofTree_effective`.
-/
import PascalSurvey.Proofs.ProjectFile.OtherGroups

namespace PascalSurvey.ProjectFile

open Text
open Xml (Element)
open Xml.Element (SameBut)

/-! ### The base -/

/-- The groups of the base: those without a condition, then those for `Base`. -/
def baseGroups (root : Element) : List Element :=
  plainGroups root ++ (conditionedGroups root).filter fun g => keyOf? g == some (ofString "Base")

theorem baseSettings_eq (root : Element) :
    baseSettings (plainGroups root) ((conditionedGroups root).map Role.ofGroup) =
      ((baseGroups root).map Settings.ofGroup).foldl Settings.merge .none := by
  have hbase (g : Element) : (keyOf? g).any (· == ofString "Base") =
      (keyOf? g == some (ofString "Base")) := by
    cases keyOf? g <;> rfl
  rw [baseSettings, baseGroups, List.map_append]
  dsimp only
  rw [filter_keyedSettings (· == ofString "Base")]
  simp only [hbase]

/-- The lists of the base are those of its groups. -/
theorem lists_baseSettings (root : Element) :
    (baseSettings (plainGroups root) ((conditionedGroups root).map Role.ofGroup)).defines =
        dedupFold ((baseGroups root).flatMap (listItems "DCC_Define")) ∧
      (baseSettings (plainGroups root) ((conditionedGroups root).map Role.ofGroup)).searchPaths =
        dedupFold ((baseGroups root).flatMap (listItems "DCC_UnitSearchPath")) := by
  rw [baseSettings_eq]
  constructor
  · exact foldl_ofGroup Settings.defines Settings.merge "DCC_Define" (fun _ _ => rfl)
      (baseGroups root) .none
  · exact foldl_ofGroup Settings.searchPaths Settings.merge "DCC_UnitSearchPath" (fun _ _ => rfl)
      (baseGroups root) .none

/-! ### Trees that differ in the lists of other configurations -/

/-- The lists of a group. -/
def listNames : List Text := ["DCC_Define", "DCC_UnitSearchPath"]

/-- A child of the root is the same in another tree, or it is a group for another configuration and
the same but for its lists. -/
inductive SameGroup (cs : List Configuration) (c : Configuration) : Element → Element → Prop
  | refl (e : Element) : SameGroup cs c e e
  | other {g g' : Element} : isForOther cs c g = true → SameBut listNames g g' → SameGroup cs c g g'

/-- Two trees differ only in the defines and search paths of groups for other configurations. -/
structure SameFor (cs : List Configuration) (c : Configuration) (root root' : Element) : Prop where
  name : root'.name = root.name
  children : List.Forall₂ (SameGroup cs c) root.children root'.children

theorem areOptions_listNames : AreOptions listNames := by
  decide +kernel

section
variable {cs : List Configuration} {c : Configuration} {root root' : Element}

theorem SameFor.but (h : SameFor cs c root root') : SameForBut listNames cs c root root' where
  name := h.name
  children := h.children.imp fun
    | _, _, .refl e => .refl e
    | _, _, .other hother hbut => .other hother hbut

theorem SameForBut.baseGroups_eq {names : List Text} (h : SameForBut names cs c root root') :
    baseGroups root' = baseGroups root := by
  rw [baseGroups, baseGroups, h.plainGroups_eq]
  congr 1
  apply filter_sameGroups h.conditionedGroups
  · intro g g' hbut
    rw [keyOf?_sameBut hbut]
  · intro g hg
    have hkey := eq_of_beq hg
    rw [isForOther]
    split
    · next name hname => simp [keyOf?, hname] at hkey
    · rw [hkey]
      rfl

end

/-! ### The settings in effect -/

/-- The settings in effect are those of the base and of the active configuration `a`. -/
structure Effective (s : Surroundings) (root : Element) (m : Metadata) (a : Configuration) :
    Prop where
  active : m.activeConfiguration? = some a
  /-- The defines of the active configuration are those of its groups. -/
  ownDefines : a.defines = ownItems (conditionedGroups root) m.configurations a "DCC_Define"
  /-- The search paths too, with their variables replaced. -/
  ownSearchPaths : a.searchPaths =
    (ownItems (conditionedGroups root) m.configurations a "DCC_UnitSearchPath").map
      (substitute (knownVariables m.platform (some a.name) s))
  defines : m.defines =
    dedupFold ((baseGroups root).flatMap (listItems "DCC_Define") ++ a.defines)
  /-- Repeated search paths are left out before the variables are replaced. -/
  searchPaths : m.searchPaths =
    (dedupFold ((baseGroups root).flatMap (listItems "DCC_UnitSearchPath") ++
      ownItems (conditionedGroups root) m.configurations a "DCC_UnitSearchPath")).map
        (substitute (knownVariables m.platform (some a.name) s))

theorem dedupFold_dedupFold_append (xs ys : List Text) :
    dedupFold (dedupFold xs ++ ys) = dedupFold (xs ++ ys) := by
  rw [dedupFold_append, dedupFold_append, dedupFold, foldl_pushUnique_dedupFold, ← dedupFold]

variable {tree : FileTree} {s : Surroundings} {root root' : Element} {m : Metadata}

theorem exists_effective (h : ofTree tree s root = .ok m) : ∃ a, Effective s root m a := by
  obtain ⟨a, ha⟩ := exists_activeConfiguration? h
  obtain ⟨c, hc, hactive, hsubstituted, hsubst, hgroups⟩ := exists_active_of_ofTree h ha
  obtain ⟨hdefines, hsearchPaths⟩ := lists_of_mem hc
  obtain ⟨hbaseDefines, hbasePaths⟩ := lists_baseSettings root
  have hbase : (Readings.ofTree tree s root).base =
      baseSettings (plainGroups root) ((conditionedGroups root).map Role.ofGroup) := by
    rw [readings_eq]
  have hown (property : Text) : ownItems (conditionedGroups root) m.configurations a property =
      ownItems (conditionedGroups root)
        (configurations ((conditionedGroups root).map Role.ofGroup)) c property := by
    rw [ownItems, hgroups, ownItems]
  have hownDefines : a.defines = c.defines := by
    rw [hsubstituted]
    rfl
  refine ⟨a, ha, ?_, ?_, ?_, ?_⟩
  · rw [hown, hownDefines]
    exact hdefines
  · rw [hown, ← hsearchPaths]
    exact congrArg Configuration.searchPaths hsubstituted
  · rw [hownDefines, ← dedupFold_dedupFold_append, ← hbaseDefines, ← hbase,
      eq_metadata_of_ofTree h]
    show dedupFold (_ ++ ((Readings.ofTree tree s root).active?.getD (.named [])).defines) = _
    rw [hactive]
    rfl
  · rw [hown, ← hsearchPaths, ← dedupFold_dedupFold_append, ← hbasePaths, ← hbase, ← hsubst]
    rw [eq_metadata_of_ofTree h]
    show (dedupFold
      (_ ++ ((Readings.ofTree tree s root).active?.getD (.named [])).searchPaths)).map _ = _
    rw [hactive]
    rfl

/-! ### Other configurations -/

/-- **The lists of other configurations are not read.** -/
theorem Effective.eq_of_sameFor {a : Configuration} {m' : Metadata}
    (h : ofTree tree s root = .ok m) (ha : Effective s root m a)
    (hsame : SameFor m.configurations a root root') (h' : ofTree tree s root' = .ok m') :
    m'.defines = m.defines ∧ m'.searchPaths = m.searchPaths := by
  obtain ⟨a', ha'⟩ := exists_effective h'
  obtain ⟨hplatform, hname, hgroups⟩ :=
    hsame.but.active areOptions_listNames h h' ha.active ha'.active
  have hown (property : Text) : ownItems (conditionedGroups root') m'.configurations a' property =
      ownItems (conditionedGroups root) m.configurations a property := by
    rw [ownItems, hgroups, ownItems]
  constructor
  · rw [ha'.defines, ha'.ownDefines, hown, hsame.but.baseGroups_eq, ← ha.ownDefines, ← ha.defines]
  · rw [ha'.searchPaths, hown, hsame.but.baseGroups_eq, hplatform, hname, ← ha.searchPaths]

/-- **Main.**  Where a project file can be read, its build settings in effect are those of the base
and then those of the active configuration, without repetitions and in order.
* The items come from the groups of the base and from the groups of the active configuration, split
  at semicolons, with slashes, without blank items and references of a list to itself; in search
  paths the variables are replaced, item by item.
* In every tree that differs only in the defines and search paths of groups for other
  configurations, the settings in effect are the same. -/
theorem ofTree_effective (h : ofTree tree s root = .ok m) :
    ∃ a, Effective s root m a ∧
      ∀ root', SameFor m.configurations a root root' →
        ∃ m', ofTree tree s root' = .ok m' ∧ m'.defines = m.defines ∧
          m'.searchPaths = m.searchPaths := by
  obtain ⟨a, ha⟩ := exists_effective h
  refine ⟨a, ha, ?_⟩
  intro root' hsame
  have hread := hsame.but.ofTree_eq h
  exact ⟨_, hread, ha.eq_of_sameFor h hsame hread⟩

/-- A group with the settings of a debug configuration. -/
def debugGroup (defines : Text) : Element :=
  ⟨none, "PropertyGroup", [("Condition", "'$(Config)'=='Debug' or '$(Cfg_1)'!=''")], [],
    [⟨none, "Cfg_1", [], "true", []⟩, ⟨none, "DCC_Define", [], defines, []⟩]⟩

/-- A project file with settings for all, for the base, for a platform of the active configuration
and for another configuration. -/
def layered (debugDefines : Text) : Element :=
  ⟨none, "Project", [], [],
    [⟨none, "PropertyGroup", [], [],
        [⟨none, "Config", [], "Release", []⟩,
          ⟨none, "DCC_Define", [], "APP; ;$(DCC_Define)", []⟩,
          ⟨none, "DCC_UnitSearchPath", [], "lib\\$(Platform)", []⟩]⟩,
      debugGroup debugDefines,
      ⟨none, "PropertyGroup", [("Condition", "'$(Cfg_2_Win32)'!=''")], [],
        [⟨none, "DCC_Define", [], "app;FAST", []⟩,
          ⟨none, "DCC_UnitSearchPath", [], "fast;LIB\\$(Platform)", []⟩]⟩,
      ⟨none, "PropertyGroup", [("Condition", "'$(Config)'=='Release' or '$(Cfg_2)'!=''")], [],
        [⟨none, "Cfg_2", [], "true", []⟩]⟩,
      ⟨none, "PropertyGroup", [("Condition", "'$(Base)'!=''")], [],
        [⟨none, "DCC_Define", [], "BASE", []⟩]⟩]⟩

theorem ofTree_layered :
    ∃ m a, ofTree .empty ⟨none, none, none⟩ (layered "DEBUG") = .ok m ∧
      Effective ⟨none, none, none⟩ (layered "DEBUG") m a ∧
      m.defines = Text.ofStrings ["APP", "BASE", "FAST"] ∧
      m.searchPaths = Text.ofStrings ["lib/Win32", "fast"] ∧
      SameFor m.configurations a (layered "DEBUG") (layered "TRACE;CHECKED") ∧
      ∃ m', ofTree .empty ⟨none, none, none⟩ (layered "TRACE;CHECKED") = .ok m' ∧
        m'.defines = m.defines := by
  have hread : (ofTree .empty ⟨none, none, none⟩ (layered "DEBUG")).toOption.map
      (fun m => (m.defines, m.searchPaths)) =
        some (Text.ofStrings ["APP", "BASE", "FAST"], Text.ofStrings ["lib/Win32", "fast"]) := by
    decide +kernel
  have hother : (ofTree .empty ⟨none, none, none⟩ (layered "DEBUG")).toOption.map
      (fun m => m.activeConfiguration?.map fun a =>
        isForOther m.configurations a (debugGroup "DEBUG")) = some (some true) := by
    decide +kernel
  cases hm : ofTree .empty ⟨none, none, none⟩ (layered "DEBUG") with
  | error e =>
    rw [hm] at hread
    cases hread
  | ok m =>
    rw [hm] at hread hother
    obtain ⟨a, ha, hindependent⟩ := ofTree_effective hm
    have hforOther : isForOther m.configurations a (debugGroup "DEBUG") = true := by
      have heq : m.activeConfiguration?.map (fun a =>
        isForOther m.configurations a (debugGroup "DEBUG")) = some true := Option.some.inj hother
      rw [ha.active] at heq
      exact Option.some.inj heq
    have hbut : SameBut listNames (debugGroup "DEBUG") (debugGroup "TRACE;CHECKED") :=
      ⟨rfl, by rfl⟩
    have hsame : SameFor m.configurations a (layered "DEBUG") (layered "TRACE;CHECKED") :=
      ⟨rfl, .cons (.refl _) (.cons (.other hforOther hbut)
        (.cons (.refl _) (.cons (.refl _) (.cons (.refl _) .nil))))⟩
    obtain ⟨m', hm', hdefines, -⟩ := hindependent _ hsame
    obtain ⟨hd, hp⟩ := Prod.mk.inj (Option.some.inj hread)
    exact ⟨m, a, rfl, ha, hd, hp, hsame, m', hm', hdefines⟩

end PascalSurvey.ProjectFile
