/-
PascalSurvey/Proofs/ProjectFile/Groups.lean

The property groups of a project file, and the lists in them.  A group without a condition holds
settings for all configurations.  One with a condition declares a configuration
(`declaredName?`), or it holds settings for a key (`keyOf?`), or it is for neither; what a group is
for says only that, its settings and the key under which it declares (`ofGroup_eq`).

The items of a list are those between semicolons, with slashes, without blank ones and without
references of the property to itself (`listItems`).  A group gives them without repetitions, and
what takes up one group after the other leaves out repetitions again, which comes to the same as
leaving them out once from all items (`foldl_ofGroup`).
-/
import PascalSurvey.Proofs.ProjectFile.Readings
import PascalSurvey.Proofs.Text.Fold

namespace PascalSurvey.ProjectFile

open Ascii Text
open Xml (Element)

/-! ### Items -/

/-- The items of the list that a group holds for a property.  They have slashes; blank ones and
references of the property to itself are left out, and repeated ones stay. -/
def listItems (property : Text) (g : Element) : List Text :=
  match child? g property with
  | none => []
  | some value =>
    (((split semicolon value).map trim).filter fun item =>
      !(item.isEmpty || eqFold item (ofString "$(" ++ property ++ [rparen]))).map forwardSlashes

theorem childList_eq (property : Text) (g : Element) :
    childList g property = dedupFold (listItems property g) := by
  rw [childList, listItems]
  cases child? g property <;> rfl

/-- **What takes up the list of one group after the other without repetitions takes up all their
items.**  `kept` is the list, and `take` adds the settings of a group. -/
theorem foldl_ofGroup {α : Type} (kept : α → List Text) (take : α → Settings → α) (property : Text)
    (h : ∀ a g, kept (take a (.ofGroup g)) = (childList g property).foldl pushUnique (kept a))
    (gs : List Element) (a : α) :
    kept ((gs.map Settings.ofGroup).foldl take a) =
      (gs.flatMap (listItems property)).foldl pushUnique (kept a) := by
  induction gs generalizing a with
  | nil => rfl
  | cons g gs ih =>
    rw [List.map_cons, List.foldl_cons, ih, h, childList_eq, foldl_pushUnique_dedupFold,
      List.flatMap_cons, List.foldl_append]

/-! ### Groups -/

/-- The groups without a condition. -/
def plainGroups (root : Element) : List Element :=
  (root.all (msbuild "PropertyGroup")).filter fun g => (condition? g).isNone

/-- The groups with a condition. -/
def conditionedGroups (root : Element) : List Element :=
  (root.all (msbuild "PropertyGroup")).filter fun g => (condition? g).isSome

theorem split_eq (root : Element) :
    Readings.split (root.all (msbuild "PropertyGroup")) =
      (plainGroups root, conditionedGroups root) := by
  rw [Readings.split, List.partition_eq_filter_filter, plainGroups, conditionedGroups]
  congr 2
  funext g
  show (!(condition? g).isNone) = (condition? g).isSome
  cases condition? g <;> rfl

/-- The readings of a tree come from these two lists of groups and from the items. -/
theorem readings_eq (tree : FileTree) (s : Surroundings) (root : Element) :
    Readings.ofTree tree s root =
      { scalar := scalar? (plainGroups root ++ conditionedGroups root)
        base := baseSettings (plainGroups root) ((conditionedGroups root).map Role.ofGroup)
        roles := (conditionedGroups root).map Role.ofGroup
        items := fun subst =>
          (root.all (msbuild "ItemGroup")).foldl (Items.addGroup tree s subst) ⟨[], [], [], []⟩
        used := (plainGroups root ++ conditionedGroups root).flatMap
          fun g => childList g "DCC_UsePackage" } := by
  rw [Readings.ofTree, split_eq]

/-- The configuration that a group declares. -/
def declaredName? (g : Element) : Option Text := (condition? g).bind declares?

/-- The key for which a group holds settings. -/
def keyOf? (g : Element) : Option Text :=
  if (declaredName? g).isSome then none else (condition? g).bind settingsFor?

/-- The key of the configuration that a group declares. -/
def declaredKey (g : Element) : Text :=
  (((g.children.map (·.name)).find? isCfgKey).or
    (((condition? g).bind settingsFor?).filter (· != ofString "Base"))).getD []

/-- The configuration that a group declares, with the settings of the group. -/
def declaration? (g : Element) : Option Configuration :=
  (declaredName? g).map fun name =>
    { Configuration.named name with key := declaredKey g }.apply (.ofGroup g)

/-- What a group is for. -/
theorem ofGroup_eq (g : Element) :
    Role.ofGroup g = match declaration? g, keyOf? g with
      | some c, _ => .declaration c
      | none, some key => .keyed key (.ofGroup g)
      | none, none => .other := by
  have hdeclares : declares? ((condition? g).getD []) = declaredName? g := by
    rw [declaredName?]
    cases condition? g with
    | none => simp [declares?, comparisons]
    | some condition => rfl
  have hsettings : settingsFor? ((condition? g).getD []) = (condition? g).bind settingsFor? := by
    cases condition? g with
    | none => simp [settingsFor?, comparisons]
    | some condition => rfl
  rw [Role.ofGroup, declaration?, keyOf?, declaredKey]
  dsimp only
  rw [hdeclares, hsettings]
  cases declaredName? g with
  | some name => rfl
  | none => cases (condition? g).bind settingsFor? <;> rfl

theorem keyedSettings_map (gs : List Element) :
    keyedSettings (gs.map Role.ofGroup) =
      gs.filterMap fun g => (keyOf? g).map (·, Settings.ofGroup g) := by
  rw [keyedSettings, List.filterMap_map]
  congr
  funext g
  rw [Function.comp, ofGroup_eq, declaration?, keyOf?]
  cases declaredName? g with
  | some name => rfl
  | none => cases (condition? g).bind settingsFor? <;> rfl

/-- The settings for the keys that satisfy `p` are those of the groups for these keys. -/
theorem filter_keyedSettings (p : Text → Bool) (gs : List Element) :
    ((keyedSettings (gs.map Role.ofGroup)).filter fun (key, _) => p key).map (·.2) =
      (gs.filter fun g => (keyOf? g).any p).map Settings.ofGroup := by
  rw [keyedSettings_map]
  induction gs with
  | nil => rfl
  | cons g gs ih =>
    rw [List.filterMap_cons, List.filter_cons]
    cases keyOf? g with
    | none => simpa using ih
    | some key => cases h : p key <;> simpa [h] using ih

end PascalSurvey.ProjectFile
