/-
PascalSurvey/Proofs/ProjectFile/OtherGroups.lean

Trees that differ only in compiler options of other configurations.  Which configuration is active,
and which groups are its own, is read from conditions and from the names of children that are keys,
never from compiler options.  So two trees that differ only in some options of groups for other
configurations (`SameForBut`) have the same active configuration, and its own groups are the same,
element by element (`SameForBut.active`).
-/
import Mathlib.Data.List.Forall2
import PascalSurvey.Proofs.ProjectFile.Configurations
import PascalSurvey.Proofs.Text.Bytes
import PascalSurvey.Proofs.Xml.Lookup

namespace PascalSurvey.ProjectFile

open Text
open Xml (Element)
open Xml.Element (SameBut)

/-! ### Groups for other configurations -/

/-- A group is for another configuration: it declares another one, or it holds settings for a key
that is neither that of the base nor goes to this one. -/
def isForOther (cs : List Configuration) (c : Configuration) (g : Element) : Bool :=
  match declaredName? g with
  | some name => !eqFold name c.name
  | none => (keyOf? g).any fun key => key != ofString "Base" && !owns cs c key

/-- A child of the root is the same in another tree, or it is a group for another configuration and
the same but for children with some names. -/
inductive SameGroupBut (names : List Text) (cs : List Configuration) (c : Configuration) :
    Element → Element → Prop
  | refl (e : Element) : SameGroupBut names cs c e e
  | other {g g' : Element} : isForOther cs c g = true → SameBut names g g' →
      SameGroupBut names cs c g g'

/-- Two trees differ only in children with some names, of groups for other configurations. -/
structure SameForBut (names : List Text) (cs : List Configuration) (c : Configuration)
    (root root' : Element) : Prop where
  name : root'.name = root.name
  children : List.Forall₂ (SameGroupBut names cs c) root.children root'.children

/-- All names are those of compiler options. -/
def AreOptions (names : List Text) : Prop :=
  ∀ n ∈ names, startsWith (toLower n) (ofString "dcc_") = true

instance (names : List Text) : Decidable (AreOptions names) :=
  inferInstanceAs (Decidable (∀ n ∈ names, _))

/-- Other properties have other names. -/
theorem AreOptions.apart {names : List Text} (h : AreOptions names) {name : Text}
    (hname : startsWith (toLower name) (ofString "dcc_") = false) :
    ∀ n ∈ names, eqFold name n = false := by
  intro n hn
  rw [Bool.eq_false_iff]
  intro hfold
  rw [eqFold_iff.mp hfold, h n hn] at hname
  cases hname

/-- The name of a key is no compiler option. -/
theorem AreOptions.not_isCfgKey {names : List Text} (h : AreOptions names) {c : Element}
    (hkey : isCfgKey c.name = true) : names.any c.hasLocalName = false := by
  unfold isCfgKey at hkey
  split at hkey
  · next rest hrest =>
    have hname : startsWith (toLower c.name) (ofString "dcc_") = false := by
      rw [after?_eq_some_iff.mp hrest]
      rfl
    rw [List.any_eq_false]
    intro n hn hlocal
    rw [Xml.Element.hasLocalName, h.apart hname n hn] at hlocal
    cases hlocal
  · cases hkey

/-! ### One group -/

section
variable {names : List Text} {g g' : Element}

theorem condition?_sameBut (h : SameBut names g g') : condition? g' = condition? g :=
  h.attribute? "Condition"

theorem declaredName?_sameBut (h : SameBut names g g') : declaredName? g' = declaredName? g := by
  rw [declaredName?, condition?_sameBut h, declaredName?]

theorem keyOf?_sameBut (h : SameBut names g g') : keyOf? g' = keyOf? g := by
  rw [keyOf?, declaredName?_sameBut h, condition?_sameBut h, keyOf?]

theorem child?_sameBut (h : SameBut names g g') {name : Text}
    (hname : ∀ n ∈ names, eqFold name n = false) : child? g' name = child? g name :=
  (Xml.Element.childValue?_congr (h.all hname)).symm

variable (hnames : AreOptions names)
include hnames

theorem declaredKey_sameBut (h : SameBut names g g') : declaredKey g' = declaredKey g := by
  have hkeys : g.children.filter (isCfgKey ∘ (·.name)) = g'.children.filter (isCfgKey ∘ (·.name)) :=
    h.filter_children fun _ => hnames.not_isCfgKey
  rw [declaredKey, declaredKey, List.find?_map, List.find?_map, ← List.head?_filter,
    ← List.head?_filter, hkeys, condition?_sameBut h]

theorem bare_declaration?_sameBut (h : SameBut names g g') :
    (declaration? g').map Configuration.bare = (declaration? g).map Configuration.bare := by
  rw [declaration?, declaration?, declaredName?_sameBut h, declaredKey_sameBut hnames h,
    Option.map_map, Option.map_map]
  rfl

end

/-! ### The groups -/

section
variable {names : List Text} {cs : List Configuration} {c : Configuration} {gs gs' : List Element}
  (h : List.Forall₂ (SameGroupBut names cs c) gs gs')
include h

/-- What is read of the groups without looking at the children that may differ. -/
theorem map_sameGroups {α : Type} {f : Element → α}
    (hf : ∀ {g g'}, SameBut names g g' → f g' = f g) : gs'.map f = gs.map f := by
  induction h with
  | nil => rfl
  | cons hg _ ih =>
    rw [List.map_cons, List.map_cons, ih]
    cases hg with
    | refl => rfl
    | other _ hbut => rw [hf hbut]

/-- The groups that are not for another configuration are the same elements. -/
theorem filter_sameGroups {p : Element → Bool}
    (hp : ∀ {g g'}, SameBut names g g' → p g' = p g)
    (hown : ∀ g, p g = true → isForOther cs c g = false) : gs'.filter p = gs.filter p := by
  induction h with
  | nil => rfl
  | @cons g g' _ _ hg _ ih =>
    rw [List.filter_cons, List.filter_cons, ih]
    cases hg with
    | refl => rfl
    | other hother hbut =>
      rw [hp hbut]
      cases hpg : p g with
      | false => rfl
      | true =>
        rw [hown g hpg] at hother
        cases hother

/-- A part of the groups that is told without looking at the children that may differ. -/
theorem sameGroups_filter {p : Element → Bool}
    (hp : ∀ {g g'}, SameBut names g g' → p g' = p g) :
    List.Forall₂ (SameGroupBut names cs c) (gs.filter p) (gs'.filter p) := by
  refine List.rel_filter ?_ h
  intro g g' hg
  show p g = true ↔ p g' = true
  cases hg with
  | refl => rfl
  | other _ hbut => rw [hp hbut]

end

theorem isForOther_of_plain {cs : List Configuration} {c : Configuration} {g : Element}
    (h : (condition? g).isNone = true) : isForOther cs c g = false := by
  rw [isForOther, keyOf?, declaredName?, Option.isNone_iff_eq_none.mp h]
  rfl

theorem map_bare_metadata (r : Readings) (s : Surroundings) :
    (r.metadata s).configurations.map Configuration.bare =
      (configurations r.roles).map Configuration.bare := by
  show ((configurations r.roles).map (.substituted (r.subst s))).map Configuration.bare = _
  rw [List.map_map]
  rfl

/-- Which configuration is active is known from the names and the keys. -/
theorem bare_activeConfiguration? (m : Metadata) :
    m.activeConfiguration?.map Configuration.bare =
      active? (m.configurations.map Configuration.bare) m.activeConfig :=
  (active?_map (f := Configuration.bare) (fun _ => rfl) m.configurations m.activeConfig).symm

/-! ### The active configuration -/

section
variable {names : List Text} {cs : List Configuration} {c : Configuration} {root root' : Element}
  (h : SameForBut names cs c root root')
include h

theorem SameForBut.all (name : Text) :
    List.Forall₂ (SameGroupBut names cs c) (root.all (msbuild name))
      (root'.all (msbuild name)) := by
  have hfilter (n : Xml.Name) : List.Forall₂ (SameGroupBut names cs c)
      (root.children.filter (·.hasName n)) (root'.children.filter (·.hasName n)) :=
    sameGroups_filter h.children fun hbut => hbut.hasName n
  have hempty : (root.children.filter (·.hasName (.qualified msbuildSpace name))).isEmpty =
      (root'.children.filter (·.hasName (.qualified msbuildSpace name))).isEmpty := by
    rw [Bool.eq_iff_iff, List.isEmpty_iff_length_eq_zero, List.isEmpty_iff_length_eq_zero,
      (hfilter _).length_eq]
  rw [msbuild, Xml.Element.all_cons, Xml.Element.all_singleton, Xml.Element.all_cons,
    Xml.Element.all_singleton, hempty]
  split
  · exact hfilter _
  · exact hfilter _

theorem SameForBut.plainGroups_eq : plainGroups root' = plainGroups root := by
  apply filter_sameGroups (h.all "PropertyGroup")
  · intro g g' hbut
    rw [condition?_sameBut hbut]
  · intro g hg
    exact isForOther_of_plain hg

theorem SameForBut.conditionedGroups :
    List.Forall₂ (SameGroupBut names cs c) (conditionedGroups root)
      (ProjectFile.conditionedGroups root') := by
  apply sameGroups_filter (h.all "PropertyGroup")
  intro g g' hbut
  rw [condition?_sameBut hbut]

/-- **The groups of the configuration itself are the same elements.** -/
theorem SameForBut.groupsOf_eq :
    groupsOf (ProjectFile.conditionedGroups root') cs c =
      groupsOf (ProjectFile.conditionedGroups root) cs c := by
  rw [groupsOf, groupsOf, ← List.head?_filter, ← List.head?_filter]
  congr 1
  · congr 2
    apply filter_sameGroups h.conditionedGroups
    · intro g g' hbut
      rw [declaredName?_sameBut hbut]
    · intro g hg
      obtain ⟨name, hname, hfold⟩ := (Option.any_eq_true _ _).mp hg
      rw [isForOther, hname]
      show (!eqFold name c.name) = false
      rw [hfold]
      rfl
  · apply filter_sameGroups h.conditionedGroups
    · intro g g' hbut
      rw [isFor, keyOf?_sameBut hbut, isFor]
    · intro g hg
      obtain ⟨key, hkey, howns⟩ := (Option.any_eq_true _ _).mp hg
      rw [isForOther]
      split
      · next name hname => simp [keyOf?, hname] at hkey
      · rw [hkey]
        show (key != _ && !owns cs c key) = false
        rw [(Bool.and_eq_true_iff.mp howns).2]
        simp

theorem SameForBut.scalar?_eq {name : Text} (hname : ∀ n ∈ names, eqFold name n = false) :
    scalar? (plainGroups root' ++ ProjectFile.conditionedGroups root') name =
      scalar? (plainGroups root ++ ProjectFile.conditionedGroups root) name := by
  rw [scalar?_eq_map, scalar?_eq_map, h.plainGroups_eq, List.map_append, List.map_append,
    map_sameGroups h.conditionedGroups fun hbut => child?_sameBut hbut hname]

end

section
variable {names : List Text} {tree : FileTree} {s : Surroundings} {root root' : Element}
  {m m' : Metadata} {a a' : Configuration}

/-- The other tree can be read as well. -/
theorem SameForBut.ofTree_eq {cs : List Configuration} {c : Configuration}
    (hsame : SameForBut names cs c root root') (h : ofTree tree s root = .ok m) :
    ofTree tree s root' = .ok ((Readings.ofTree tree s root').metadata s) := by
  rw [ProjectFile.ofTree_eq] at h ⊢
  rw [hsame.name]
  split at h
  · cases h
  · next hproject => rw [if_neg hproject]

/-- **The same configuration is active, and its groups are the same elements.** -/
theorem SameForBut.active (hnames : AreOptions names)
    (hsame : SameForBut names m.configurations a root root') (h : ofTree tree s root = .ok m)
    (h' : ofTree tree s root' = .ok m') (ha : m.activeConfiguration? = some a)
    (ha' : m'.activeConfiguration? = some a') :
    m'.platform = m.platform ∧ a'.name = a.name ∧
      groupsOf (ProjectFile.conditionedGroups root') m'.configurations a' =
        groupsOf (ProjectFile.conditionedGroups root) m.configurations a := by
  have hm := eq_metadata_of_ofTree h
  have hm' := eq_metadata_of_ofTree h'
  rw [readings_eq] at hm hm'
  have hscalar {name : Text} (hname : startsWith (toLower name) (ofString "dcc_") = false) :=
    hsame.scalar?_eq (hnames.apart hname)
  have hplatform : m'.platform = m.platform := by
    rw [hm, hm']
    exact hscalar (by decide +kernel)
  have hactiveConfig : m'.activeConfig = m.activeConfig := by
    rw [hm, hm']
    show (scalar? _ _).or (scalar? _ _) = (scalar? _ _).or (scalar? _ _)
    rw [hscalar (by decide +kernel), hscalar (by decide +kernel)]
  have hbare : m'.configurations.map Configuration.bare =
      m.configurations.map Configuration.bare := by
    rw [hm, hm', map_bare_metadata, map_bare_metadata]
    exact map_bare_configurations
      (map_sameGroups hsame.conditionedGroups (bare_declaration?_sameBut hnames))
  -- so the active configuration has the name and the key that it has in the other tree
  have hactive : a'.bare = a.bare := by
    have heq := bare_activeConfiguration? m'
    rw [hactiveConfig, hbare, ← bare_activeConfiguration?, ha, ha'] at heq
    exact Option.some.inj heq
  refine ⟨hplatform, ?_, ?_⟩
  · show a'.bare.name = a.bare.name
    rw [hactive]
  · rw [← groupsOf_map (f := Configuration.bare) (fun _ => rfl) (fun _ => rfl), hbare, hactive,
      groupsOf_map (f := Configuration.bare) (fun _ => rfl) (fun _ => rfl), hsame.groupsOf_eq]

end

end PascalSurvey.ProjectFile
