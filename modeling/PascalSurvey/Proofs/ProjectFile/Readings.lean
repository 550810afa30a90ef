/-
PascalSurvey/Proofs/ProjectFile/Readings.lean

What is read from the tree of a project file.  The metadata depend on the tree only through the
properties, the settings, the roles of the groups and the items (`Readings`, `ofTree_eq`), and
each of these is read through lookups that take the namespace of project files first and no
namespace second, through attributes and texts, and through the names of children.  None of
them tells a tree that is all in the namespace from the same tree without it.

Main result: a project file says the same with and without the namespace
(`ofTree_withoutSpaces`).
-/
import Mathlib.Data.List.Basic
import PascalSurvey.ProjectFile.Reader
import PascalSurvey.Proofs.Xml.Space

namespace PascalSurvey.ProjectFile

open Xml (Element)
open Xml.Element (InSpace withoutSpaces)

/-! ### Readings -/

/-- What is read from the tree of a project file. -/
@[ext] structure Readings where
  /-- The first value of a property. -/
  scalar : Text → Option Text
  base : Settings
  roles : List Role
  /-- The items, once it is known which variables to replace. -/
  items : (Text → Text) → Items
  /-- The packages that the groups use. -/
  used : List Text

namespace Readings

/-- Splits groups into those without a condition and the others. -/
def split (groups : List Element) : List Element × List Element :=
  groups.partition fun g => (condition? g).isNone

def ofTree (tree : FileTree) (s : Surroundings) (root : Element) : Readings :=
  let (plain, conditioned) := split (root.all (msbuild "PropertyGroup"))
  let roles := conditioned.map Role.ofGroup
  { scalar := scalar? (plain ++ conditioned)
    base := baseSettings plain roles
    roles
    items := fun subst =>
      (root.all (msbuild "ItemGroup")).foldl (Items.addGroup tree s subst) ⟨[], [], [], []⟩
    used := (plain ++ conditioned).flatMap fun g => childList g "DCC_UsePackage" }

def platform (r : Readings) : Option Text := r.scalar "Platform"

def activeConfig (r : Readings) : Option Text := (r.scalar "Config").or (r.scalar "Configuration")

/-- The active configuration, before its variables are replaced. -/
def active? (r : Readings) : Option Configuration :=
  ProjectFile.active? (configurations r.roles) r.activeConfig

/-- Replaces the variables of the project file. -/
def subst (r : Readings) (s : Surroundings) : Text → Text :=
  substitute (knownVariables r.platform (r.active?.map (·.name)) s)

/-- The metadata that the readings make. -/
def metadata (r : Readings) (s : Surroundings) : Metadata :=
  let active := r.active?.getD (.named [])
  let output := fun path => Text.forwardSlashes (r.subst s path)
  let items := r.items (r.subst s)
  { projectGuid := r.scalar "ProjectGuid"
    mainSource := r.scalar "MainSource"
    platform := r.platform
    activeConfig := r.activeConfig
    frameworkType := r.scalar "FrameworkType"
    exeOutput := ((r.scalar "DCC_ExeOutput").or active.outputPath).map output
    dcuOutput := (r.scalar "DCC_DcuOutput").map output
    configurations := (configurations r.roles).map fun c =>
      { c with
        searchPaths := c.searchPaths.map (r.subst s)
        outputPath := c.outputPath.map (r.subst s) }
    defines := Text.dedupFold (r.base.defines ++ active.defines)
    searchPaths := (Text.dedupFold (r.base.searchPaths ++ active.searchPaths)).map (r.subst s)
    sourceFiles := items.sources
    formFiles := items.forms
    resourceFiles := items.resources
    packages := r.used.foldl Text.pushUnique items.packages }

end Readings

/-- The metadata of a tree are those that its readings make. -/
theorem ofTree_eq (tree : FileTree) (s : Surroundings) (root : Element) :
    ofTree tree s root =
      if !Text.eqFold root.name "Project" then .error .missingRoot
      else .ok ((Readings.ofTree tree s root).metadata s) :=
  rfl

/-- What can be seen in the result of a reading was read. -/
theorem exists_ok_of_toOption {ε α β : Type} {result : Except ε α} {f : α → β} {b : β}
    (h : result.toOption.map f = some b) : ∃ a, result = .ok a ∧ f a = b := by
  cases result with
  | error e => cases h
  | ok a => exact ⟨a, rfl, Option.some.inj h⟩

variable {g : Element} {gs : List Element}

/-! ### One group -/

theorem condition?_withoutSpaces (g : Element) : condition? g.withoutSpaces = condition? g :=
  g.attribute?_withoutSpaces "Condition"

section Group

variable (h : g.InSpace msbuildSpace)
include h

theorem all_withoutSpaces (name : Text) :
    g.withoutSpaces.all (msbuild name) = (g.all (msbuild name)).map withoutSpaces :=
  h.all_eq name

theorem child?_withoutSpaces (name : Text) : child? g.withoutSpaces name = child? g name :=
  h.childValue?_eq name

theorem childList_withoutSpaces (property : Text) :
    childList g.withoutSpaces property = childList g property := by
  rw [childList, childList, child?_withoutSpaces h]

theorem settings_withoutSpaces : Settings.ofGroup g.withoutSpaces = Settings.ofGroup g := by
  simp only [Settings.ofGroup, childList_withoutSpaces h, child?_withoutSpaces h]

theorem role_withoutSpaces : Role.ofGroup g.withoutSpaces = Role.ofGroup g := by
  have hnames : g.withoutSpaces.children.map (·.name) = g.children.map (·.name) := by
    simp
  rw [Role.ofGroup, Role.ofGroup, condition?_withoutSpaces, hnames, settings_withoutSpaces h]

theorem formOf?_withoutSpaces (tree : FileTree) (s : Surroundings) (path : Text) :
    formOf? tree s g.withoutSpaces path = formOf? tree s g path := by
  simp only [formOf?, child?_withoutSpaces h]

theorem addReference_withoutSpaces (tree : FileTree) (s : Surroundings) (subst : Text → Text)
    (items : Items) :
    items.addReference tree s subst g.withoutSpaces = items.addReference tree s subst g := by
  simp only [Items.addReference, Xml.Element.attribute?_withoutSpaces, formOf?_withoutSpaces h]

theorem includes_withoutSpaces (name : Text) :
    includes g.withoutSpaces name = includes g name := by
  rw [includes, includes, all_withoutSpaces h, List.filterMap_map]
  congr 1
  funext c
  exact c.attribute?_withoutSpaces "Include"

end Group

/-! ### Several groups -/

/-- What is made of elements one after the other, if each of them gives the same. -/
theorem foldl_withoutSpaces {β : Type} (f : β → Element → β) (b : β)
    (hgs : ∀ g ∈ gs, g.InSpace msbuildSpace)
    (hf : ∀ g, g.InSpace msbuildSpace → ∀ b, f b g.withoutSpaces = f b g) :
    (gs.map withoutSpaces).foldl f b = gs.foldl f b := by
  rw [List.foldl_map]
  exact List.foldl_ext _ _ b fun b g hg => hf g (hgs g hg) b

theorem addGroup_withoutSpaces (h : g.InSpace msbuildSpace) (tree : FileTree) (s : Surroundings)
    (subst : Text → Text) (items : Items) :
    items.addGroup tree s subst g.withoutSpaces = items.addGroup tree s subst g := by
  have hreferences : (g.withoutSpaces.all (msbuild "DCCReference")).foldl
      (Items.addReference tree s subst) items =
        (g.all (msbuild "DCCReference")).foldl (Items.addReference tree s subst) items := by
    rw [all_withoutSpaces h]
    refine foldl_withoutSpaces _ _ (fun c hc => h.of_mem_all hc) fun c hc b => ?_
    exact addReference_withoutSpaces hc tree s subst b
  simp only [Items.addGroup, hreferences, includes_withoutSpaces h]

/-- The first value is read off the values of the groups. -/
theorem scalar?_eq_map (gs : List Element) (name : Text) :
    scalar? gs name = (gs.map (child? · name)).findSome? id := by
  rw [List.findSome?_map]
  rfl

section Groups

variable (hgs : ∀ g ∈ gs, g.InSpace msbuildSpace)
include hgs

theorem map_withoutSpaces {β : Type} {f : Element → β}
    (hf : ∀ g, g.InSpace msbuildSpace → f g.withoutSpaces = f g) :
    (gs.map withoutSpaces).map f = gs.map f := by
  rw [List.map_map]
  exact List.map_congr_left fun g hg => hf g (hgs g hg)

theorem scalar?_withoutSpaces (name : Text) :
    scalar? (gs.map withoutSpaces) name = scalar? gs name := by
  rw [scalar?_eq_map, scalar?_eq_map, map_withoutSpaces hgs fun g hg => child?_withoutSpaces hg name]

theorem usedPackages_withoutSpaces :
    (gs.map withoutSpaces).flatMap (childList · "DCC_UsePackage") =
      gs.flatMap (childList · "DCC_UsePackage") := by
  rw [List.flatMap_def, List.flatMap_def,
    map_withoutSpaces hgs fun g hg => childList_withoutSpaces hg "DCC_UsePackage"]

theorem baseSettings_withoutSpaces (roles : List Role) :
    baseSettings (gs.map withoutSpaces) roles = baseSettings gs roles := by
  rw [baseSettings, baseSettings, map_withoutSpaces hgs fun g hg => settings_withoutSpaces hg]

end Groups

/-! ### The whole -/

/-- The groups fall apart in the same way. -/
theorem split_withoutSpaces (gs : List Element) :
    Readings.split (gs.map withoutSpaces) =
      ((Readings.split gs).1.map withoutSpaces, (Readings.split gs).2.map withoutSpaces) := by
  simp only [Readings.split, List.partition_eq_filter_filter, List.filter_map, Function.comp_def,
    condition?_withoutSpaces]

theorem mem_of_mem_split (h : g ∈ (Readings.split gs).1 ++ (Readings.split gs).2) : g ∈ gs := by
  rw [Readings.split, List.partition_eq_filter_filter] at h
  exact (List.mem_append.mp h).elim List.mem_of_mem_filter List.mem_of_mem_filter

theorem readings_withoutSpaces {root : Element} (h : root.InSpace msbuildSpace)
    (tree : FileTree) (s : Surroundings) :
    Readings.ofTree tree s root.withoutSpaces = Readings.ofTree tree s root := by
  have hgroups : ∀ g ∈ (Readings.split (root.all (msbuild "PropertyGroup"))).1 ++
      (Readings.split (root.all (msbuild "PropertyGroup"))).2, g.InSpace msbuildSpace :=
    fun g hg => h.of_mem_all (mem_of_mem_split hg)
  have hplain := fun g hg => hgroups g (List.mem_append_left _ hg)
  have hroles := map_withoutSpaces (fun g hg => hgroups g (List.mem_append_right _ hg))
    fun g hg => role_withoutSpaces hg
  rw [Readings.ofTree, Readings.ofTree, all_withoutSpaces h, split_withoutSpaces]
  -- one goal for each reading
  ext1
  · funext name
    dsimp only
    rw [← List.map_append, scalar?_withoutSpaces hgroups]
  · dsimp only
    rw [hroles, baseSettings_withoutSpaces hplain]
  · exact hroles
  · funext subst
    dsimp only
    rw [all_withoutSpaces h]
    refine foldl_withoutSpaces _ _ (fun g hg => h.of_mem_all hg) fun g hg items => ?_
    exact addGroup_withoutSpaces hg tree s subst items
  · dsimp only
    rw [← List.map_append, usedPackages_withoutSpaces hgroups]

/-- **Main.**  A project file says the same with and without the namespace. -/
theorem ofTree_withoutSpaces {root : Element} (h : root.InSpace msbuildSpace) (tree : FileTree)
    (s : Surroundings) : ofTree tree s root.withoutSpaces = ofTree tree s root := by
  rw [ofTree_eq, ofTree_eq, Xml.Element.name_withoutSpaces, readings_withoutSpaces h]

/-- A project file in the namespace, with a main source and with a unit that has a form. -/
def formProject : Element :=
  ⟨some msbuildSpace, "Project", [], [],
    [⟨some msbuildSpace, "PropertyGroup", [], [],
        [⟨some msbuildSpace, "MainSource", [], "App.dpr", []⟩]⟩,
      ⟨some msbuildSpace, "ItemGroup", [], [],
        [⟨some msbuildSpace, "DCCReference", [("Include", "uMain.pas")], [],
          [⟨some msbuildSpace, "Form", [], "Main", []⟩]⟩]⟩]⟩

theorem ofTree_formProject :
    formProject.InSpace msbuildSpace ∧
      (ofTree .empty ⟨none, none, none⟩ formProject.withoutSpaces).toOption.map
          (fun m => (m.mainSource, m.formFiles.map (·.formName))) =
        some (some (Text.ofString "App.dpr"), Text.ofStrings ["Main"]) := by
  have h : formProject.InSpace msbuildSpace := by
    simp [formProject, Xml.Element.inSpace_mk]
  refine ⟨h, ?_⟩
  rw [ofTree_withoutSpaces h]
  decide +kernel

end PascalSurvey.ProjectFile
