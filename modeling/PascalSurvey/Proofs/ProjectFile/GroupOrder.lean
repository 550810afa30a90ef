/-
PascalSurvey/Proofs/ProjectFile/GroupOrder.lean

A group with settings may stand before the configuration that it is for.  Groups with a condition
are read in one pass: a group that declares a configuration adds to the declarations, and a group
that only holds settings for a key adds to the settings for keys; the two lists are put together
when the pass is over.  Nothing that is read from the groups comes from both of such a pair
(`Independent`), so swapping the two changes no reading (`filterMap_eq`).

Main result: swapping a group that declares a configuration and one that only holds settings leaves
the metadata as they are; there is always a configuration, the names of the configurations differ,
and one of them is active (`ofTree_swapsGroups`).
-/
import PascalSurvey.Proofs.ProjectFile.Configurations
import PascalSurvey.Proofs.Xml.Lookup

namespace PascalSurvey.ProjectFile

open Text
open Xml (Element)

/-! ### Two groups side by side -/

/-- Whether an element is a property group with a condition. -/
def isConditioned (e : Element) : Bool :=
  e.hasLocalName "PropertyGroup" && (condition? e).isSome

/-- The properties of a group that only holds settings. -/
def settingNames : List Text := ["DCC_Define", "DCC_UnitSearchPath", "DCC_Optimize"]

/-- A group declares a configuration. -/
structure Declares (g : Element) : Prop where
  conditioned : isConditioned g = true
  isSome_declaredName? : (declaredName? g).isSome = true

/-- A group declares nothing and only holds settings. -/
structure OnlySettings (g : Element) : Prop where
  conditioned : isConditioned g = true
  declaredName?_eq_none : declaredName? g = none
  children : ∀ c ∈ g.children, ∃ name ∈ settingNames, c.hasLocalName name = true

/-- One of two groups declares a configuration, and the other only holds settings. -/
inductive Independent (a b : Element) : Prop
  | declaresFirst : Declares a → OnlySettings b → Independent a b
  | settingsFirst : OnlySettings a → Declares b → Independent a b

/-- Two lists of elements differ in the order of two such groups, between which no other group with
a condition stands. -/
inductive SwapsGroups : List Element → List Element → Prop
  | swap (before between after : List Element) {a b : Element} (h : Independent a b)
      (hbetween : ∀ e ∈ between, isConditioned e = false) :
      SwapsGroups (before ++ a :: (between ++ b :: after)) (before ++ b :: (between ++ a :: after))

/-- Two lists of groups are equal, or two neighbours that are independent have changed places. -/
inductive Swapped : List Element → List Element → Prop
  | refl (gs : List Element) : Swapped gs gs
  | swap (before after : List Element) {a b : Element} (h : Independent a b) :
      Swapped (before ++ a :: b :: after) (before ++ b :: a :: after)

/-- What at most one of two independent groups gives is read in the same order. -/
theorem Swapped.filterMap_eq {gs gs' : List Element} (h : Swapped gs gs') {α : Type}
    {f : Element → Option α} (hf : ∀ a b, Independent a b → f a = none ∨ f b = none) :
    gs.filterMap f = gs'.filterMap f := by
  cases h with
  | refl => rfl
  | swap before after hab =>
    rcases hf _ _ hab with h | h <;> simp [List.filterMap_append, List.filterMap_cons, h]

/-! ### What one of two independent groups gives -/

section
variable {a b : Element}

theorem Independent.declaration? (h : Independent a b) :
    declaration? a = none ∨ declaration? b = none := by
  have hnone {g : Element} (hg : OnlySettings g) : ProjectFile.declaration? g = none := by
    rw [ProjectFile.declaration?, hg.declaredName?_eq_none]
    rfl
  cases h with
  | declaresFirst _ hb => exact .inr (hnone hb)
  | settingsFirst ha _ => exact .inl (hnone ha)

theorem Independent.keyOf? (h : Independent a b) : keyOf? a = none ∨ keyOf? b = none := by
  have hnone {g : Element} (hg : Declares g) : ProjectFile.keyOf? g = none := by
    rw [ProjectFile.keyOf?, if_pos hg.isSome_declaredName?]
  cases h with
  | declaresFirst ha _ => exact .inl (hnone ha)
  | settingsFirst _ hb => exact .inr (hnone hb)

/-- Other properties than the settings. -/
theorem Independent.child? (h : Independent a b) {name : Text}
    (hname : ∀ n ∈ settingNames, eqFold n name = false) :
    child? a name = none ∨ child? b name = none := by
  have hnone {g : Element} (hg : OnlySettings g) : ProjectFile.child? g name = none := by
    have hall : g.all (msbuild name) = [] := by
      apply Xml.Element.all_eq_nil
      intro c hc
      obtain ⟨n, hn, hlocal⟩ := hg.children c hc
      rw [← hname n hn, Bool.eq_iff_iff, Xml.Element.hasLocalName, eqFold_iff, eqFold_iff,
        eqFold_iff.mp hlocal]
    rw [ProjectFile.child?, Xml.Element.childValue?, Xml.Element.first?_eq_head?, hall]
    rfl
  cases h with
  | declaresFirst _ hb => exact .inr (hnone hb)
  | settingsFirst ha _ => exact .inl (hnone ha)

end

/-! ### The readings of swapped groups -/

section
variable {gs gs' : List Element} (h : Swapped gs gs')
include h

theorem Swapped.declaredConfigurations_eq :
    declaredConfigurations (gs.map Role.ofGroup) =
      declaredConfigurations (gs'.map Role.ofGroup) := by
  rw [declaredConfigurations_map, declaredConfigurations_map,
    h.filterMap_eq fun _ _ hab => hab.declaration?]

theorem Swapped.keyedSettings_eq :
    keyedSettings (gs.map Role.ofGroup) = keyedSettings (gs'.map Role.ofGroup) := by
  rw [keyedSettings_map, keyedSettings_map]
  apply h.filterMap_eq
  intro a b hab
  rcases hab.keyOf? with hkey | hkey
  · exact .inl (by rw [hkey]; rfl)
  · exact .inr (by rw [hkey]; rfl)

theorem Swapped.configurations_eq :
    configurations (gs.map Role.ofGroup) = configurations (gs'.map Role.ofGroup) := by
  rw [configurations, configurations, h.declaredConfigurations_eq, h.keyedSettings_eq]

theorem Swapped.baseSettings_eq (plain : List Element) :
    baseSettings plain (gs.map Role.ofGroup) = baseSettings plain (gs'.map Role.ofGroup) := by
  rw [baseSettings, baseSettings, h.keyedSettings_eq]

theorem Swapped.child?_eq (plain : List Element) {name : Text}
    (hname : ∀ n ∈ settingNames, eqFold n name = false) :
    (plain ++ gs).filterMap (child? · name) = (plain ++ gs').filterMap (child? · name) := by
  rw [List.filterMap_append, List.filterMap_append]
  congr 1
  exact h.filterMap_eq fun _ _ hab => hab.child? hname

end

/-! ### The metadata -/

/-- The properties that are read as the first value of all groups. -/
def scalarNames : List Text :=
  ["ProjectGuid", "MainSource", "Platform", "Config", "Configuration", "FrameworkType",
    "DCC_ExeOutput", "DCC_DcuOutput"]

/-- The metadata depend on the roles of the groups only through the configurations. -/
theorem Readings.metadata_congr {r r' : Readings}
    (hscalar : ∀ name ∈ scalarNames, r.scalar name = r'.scalar name) (hbase : r.base = r'.base)
    (hconfigurations : configurations r.roles = configurations r'.roles)
    (hitems : r.items = r'.items) (hused : r.used = r'.used) (s : Surroundings) :
    r.metadata s = r'.metadata s := by
  have hnames := hscalar
  simp only [scalarNames, List.forall_mem_cons] at hnames
  obtain ⟨hguid, hmain, hplatform, hconfig, hconfiguration, hframework, hexe, hdcu, -⟩ := hnames
  have hactive : r.activeConfig = r'.activeConfig := by
    rw [activeConfig, hconfig, hconfiguration, activeConfig]
  have hsubst : r.subst s = r'.subst s := by
    rw [subst, subst, platform, platform, hplatform, Readings.active?, Readings.active?,
      hconfigurations, hactive]
  simp only [metadata, hguid, hmain, platform, hplatform, hactive, hframework, hexe, hdcu, hsubst,
    hbase, hconfigurations, hitems, hused, Readings.active?]

/-! ### The groups of a tree -/

section
variable {es es' : List Element} (h : SwapsGroups es es')
include h

theorem SwapsGroups.perm : es.Perm es' := by
  cases h with
  | @swap before between after a b =>
    apply List.Perm.append_left
    have hfront : (a :: (between ++ b :: after)).Perm (a :: b :: (between ++ after)) :=
      .cons a List.perm_middle
    have hback : (b :: a :: (between ++ after)).Perm (b :: (between ++ a :: after)) :=
      .cons b List.perm_middle.symm
    exact hfront.trans ((List.Perm.swap b a _).trans hback)

/-- The other elements keep their order. -/
theorem SwapsGroups.filter_other {p : Element → Bool}
    (hp : ∀ e, isConditioned e = true → p e = false) : es.filter p = es'.filter p := by
  cases h with
  | swap before between after hab =>
    have hboth : ∀ {a b : Element}, Independent a b → p a = false ∧ p b = false := by
      rintro a b (⟨ha, hb⟩ | ⟨ha, hb⟩)
      · exact ⟨hp _ ha.conditioned, hp _ hb.conditioned⟩
      · exact ⟨hp _ ha.conditioned, hp _ hb.conditioned⟩
    obtain ⟨ha, hb⟩ := hboth hab
    simp [List.filter_append, ha, hb]

/-- Among the groups with a condition the two are neighbours. -/
theorem SwapsGroups.filter_conditioned {p : Element → Bool}
    (hp : ∀ e, p e = true → isConditioned e = true) : Swapped (es.filter p) (es'.filter p) := by
  cases h with
  | @swap before between after a b hab hbetween =>
    have hnone : between.filter p = [] := by
      rw [List.filter_eq_nil_iff]
      intro e he hpe
      have hconditioned := hp e hpe
      rw [hbetween e he] at hconditioned
      cases hconditioned
    simp only [List.filter_append, List.filter_cons, hnone]
    -- a group in another namespace may not count at all
    cases p a with
    | false => exact .refl _
    | true => cases p b with
      | false => exact .refl _
      | true => exact .swap _ _ hab

end

section
variable {root : Element} {children : List Element} (h : SwapsGroups root.children children)
include h

/-- The groups without a condition stay, and of those with one at most two neighbours change
places. -/
theorem SwapsGroups.groups :
    plainGroups root = plainGroups { root with children } ∧
      Swapped (conditionedGroups root) (conditionedGroups { root with children }) := by
  -- the same namespace is chosen for the groups of both trees
  obtain ⟨n, hn, hroot, hother⟩ :=
    @Xml.Element.exists_all_eq root { root with children } h.perm msbuildSpace "PropertyGroup"
  have hall : root.all (msbuild "PropertyGroup") = root.children.filter (·.hasName n) := hroot
  have hall' : Xml.Element.all { root with children } (msbuild "PropertyGroup") =
      children.filter (·.hasName n) := hother
  rw [plainGroups, plainGroups, conditionedGroups, conditionedGroups, hall, hall']
  simp only [List.filter_filter]
  constructor
  · apply h.filter_other
    intro e he
    obtain ⟨condition, hcondition⟩ := Option.isSome_iff_exists.mp (Bool.and_eq_true_iff.mp he).2
    rw [hcondition]
    rfl
  · apply h.filter_conditioned
    intro e he
    obtain ⟨hcondition, hname⟩ := Bool.and_eq_true_iff.mp he
    rw [isConditioned, Xml.Element.hasLocalName_of_hasName hn hname, hcondition]
    rfl

theorem SwapsGroups.itemGroups_eq :
    root.all (msbuild "ItemGroup") = Xml.Element.all { root with children } (msbuild "ItemGroup") := by
  apply Xml.Element.all_congr
  intro n hn
  apply h.filter_other
  intro e he
  rw [Bool.eq_false_iff]
  intro hname
  have hitem := eqFold_iff.mp (Xml.Element.hasLocalName_of_hasName hn hname)
  rw [eqFold_iff.mp (Bool.and_eq_true_iff.mp he).1] at hitem
  exact absurd hitem (by decide +kernel)

end

/-! ### The whole -/

theorem scalar?_eq (gs : List Element) (name : Text) :
    scalar? gs name = (gs.filterMap (child? · name)).head? := by
  rw [scalar?, List.head?_filterMap]

theorem flatMap_childList (gs : List Element) (property : Text) :
    gs.flatMap (childList · property) =
      (gs.filterMap (child? · property)).flatMap (splitList · property) := by
  rw [List.filterMap_eq_flatMap_toList, List.flatMap_assoc]
  congr
  funext g
  rw [childList]
  cases child? g property <;> simp

/-- No reading that the metadata depend on tells the two trees apart. -/
theorem SwapsGroups.ofTree_eq {root : Element} {children : List Element}
    (h : SwapsGroups root.children children) (tree : FileTree) (s : Surroundings) :
    ofTree tree s { root with children } = ofTree tree s root := by
  obtain ⟨hplain, hswapped⟩ := h.groups
  have hmetadata : (Readings.ofTree tree s root).metadata s =
      (Readings.ofTree tree s { root with children }).metadata s := by
    rw [readings_eq, readings_eq, ← hplain, ← h.itemGroups_eq]
    apply Readings.metadata_congr
    · intro name hname
      have hother : ∀ other ∈ scalarNames, ∀ n ∈ settingNames, eqFold n other = false := by
        decide +kernel
      show scalar? _ name = scalar? _ name
      rw [scalar?_eq, scalar?_eq, hswapped.child?_eq _ (hother name hname)]
    · exact hswapped.baseSettings_eq _
    · exact hswapped.configurations_eq
    · rfl
    · have hother : ∀ n ∈ settingNames, eqFold n (ofString "DCC_UsePackage") = false := by
        decide +kernel
      show List.flatMap _ _ = List.flatMap _ _
      rw [flatMap_childList, flatMap_childList, hswapped.child?_eq _ hother]
  rw [ProjectFile.ofTree_eq, ProjectFile.ofTree_eq, hmetadata]

/-- **Main.**  For every element tree of a project file:
* swapping a group that declares a configuration with one that only holds settings, where no other
  group with a condition stands between the two, leaves what is read as it is, metadata or error;
* in the metadata there is a configuration, no two configurations have the same name in any case,
  and one of them is active. -/
theorem ofTree_swapsGroups (tree : FileTree) (s : Surroundings) (root : Element) :
    (∀ children, SwapsGroups root.children children →
        ofTree tree s { root with children } = ofTree tree s root) ∧
      ∀ m, ofTree tree s root = .ok m →
        m.configurations ≠ [] ∧ NamesApart m.configurations ∧
          ∃ c ∈ m.configurations, m.activeConfiguration? = some c := by
  constructor
  · intro children h
    exact h.ofTree_eq tree s
  · intro m hm
    have hnonempty := configurations_ne_nil (conditionedGroups root)
    have hapart := namesApart_configurations (conditionedGroups root)
    have hconfigurations : m.configurations =
        (configurations ((conditionedGroups root).map Role.ofGroup)).map
          (.substituted ((Readings.ofTree tree s root).subst s)) := by
      rw [eq_metadata_of_ofTree hm, readings_eq]
      rfl
    have hne : m.configurations ≠ [] := by simpa [hconfigurations] using hnonempty
    obtain ⟨c, hc⟩ := exists_active? hne m.activeConfig
    refine ⟨hne, ?_, c, mem_of_active? hc, hc⟩
    rw [hconfigurations]
    exact hapart.congr (by simp [Configuration.substituted])

/-- A group with settings for a key. -/
def debugSettings : Element :=
  ⟨none, "PropertyGroup", [("Condition", "'$(Cfg_1)'!=''")], [],
    [⟨none, "DCC_Define", [], "TRACE;$(DCC_Define)", []⟩, ⟨none, "DCC_Optimize", [], "false", []⟩]⟩

/-- The group that declares the configuration with the key. -/
def testDeclaration : Element :=
  ⟨none, "PropertyGroup", [("Condition", "'$(Config)'=='Test' or '$(Cfg_1)'!=''")], [],
    [⟨none, "Cfg_1", [], "true", []⟩]⟩

/-- A project file in which the settings stand before the declaration. -/
def settingsFirst : Element :=
  ⟨none, "Project", [], [], [debugSettings, ⟨none, "ItemGroup", [], [], []⟩, testDeclaration]⟩

theorem ofTree_settingsFirst :
    SwapsGroups settingsFirst.children
        [testDeclaration, ⟨none, "ItemGroup", [], [], []⟩, debugSettings] ∧
      (ofTree .empty ⟨none, none, none⟩
          ⟨none, "Project", [], [], [testDeclaration, ⟨none, "ItemGroup", [], [], []⟩,
            debugSettings]⟩).toOption.map (·.configurations) =
        some [⟨"Test", "Cfg_1", Text.ofStrings ["TRACE"], [], none, true⟩] ∧
      ∃ m, ofTree .empty ⟨none, none, none⟩ settingsFirst = .ok m ∧ NamesApart m.configurations := by
  have hsettings : OnlySettings debugSettings :=
    ⟨by decide +kernel, by decide +kernel, by decide +kernel⟩
  have hdeclares : Declares testDeclaration := ⟨by decide +kernel, by decide +kernel⟩
  have hswaps : SwapsGroups settingsFirst.children
      [testDeclaration, ⟨none, "ItemGroup", [], [], []⟩, debugSettings] :=
    .swap [] [⟨none, "ItemGroup", [], [], []⟩] [] (.settingsFirst hsettings hdeclares)
      (by decide +kernel)
  obtain ⟨hswap, hall⟩ := ofTree_swapsGroups .empty ⟨none, none, none⟩ settingsFirst
  have hread : (ofTree .empty ⟨none, none, none⟩ settingsFirst).toOption.map (·.configurations) =
      some [⟨"Test", "Cfg_1", Text.ofStrings ["TRACE"], [], none, true⟩] := by
    decide +kernel
  refine ⟨hswaps, ?_, ?_⟩
  · rw [← hread, ← hswap _ hswaps]
    rfl
  · cases hm : ofTree .empty ⟨none, none, none⟩ settingsFirst with
    | error e =>
      rw [hm] at hread
      cases hread
    | ok m => exact ⟨m, rfl, (hall m hm).2.1⟩

end PascalSurvey.ProjectFile
