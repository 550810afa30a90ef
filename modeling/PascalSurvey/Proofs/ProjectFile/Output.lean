/-
PascalSurvey/Proofs/ProjectFile/Output.lean

Where the program goes.  The first group that names a directory for programs decides, those without
a condition first (`outputGroup?`); nobody asks which configuration the group is for.  Only if no
group at all names one, the groups of the active configuration are asked, and then there is left in
them at most a directory for compiled units (`exeDirectory?`).

So a group for another configuration may decide, and what it says then matters
(`exeOutput_otherGroup`).  Main result: it matters only then (`ofTree_exeOutput`).
-/
import PascalSurvey.Proofs.ProjectFile.OtherGroups

namespace PascalSurvey.ProjectFile

open Text
open Xml (Element)
open Xml.Element (SameBut)

/-! ### The directory -/

/-- The group that says where the program goes: the first that names a directory for programs. -/
def outputGroup? (root : Element) : Option Element :=
  (plainGroups root ++ conditionedGroups root).find? fun g => (child? g "DCC_ExeOutput").isSome

/-- The directory of the program before variables are replaced: the one that `outputGroup?` names,
or else the first directory for compiled units that a group of the active configuration names. -/
def exeDirectory? (root : Element) (cs : List Configuration) (a : Configuration) : Option Text :=
  ((outputGroup? root).bind (child? · "DCC_ExeOutput")).or
    (((groupsOf (conditionedGroups root) cs a).findSome? (child? · "DCC_DcuOutput")).map
      forwardSlashes)

/-- The first value of a property is that of the first group with a value. -/
theorem scalar?_eq_bind (gs : List Element) (name : Text) :
    scalar? gs name = (gs.find? fun g => (child? g name).isSome).bind (child? · name) := by
  induction gs with
  | nil => rfl
  | cons g gs ih =>
    rw [scalar?, List.findSome?_cons, List.find?_cons]
    cases hvalue : child? g name with
    | none => exact ih
    | some value => exact hvalue.symm

theorem outputPath_foldl_apply (ss : List Settings) (c : Configuration) :
    (ss.foldl Configuration.apply c).outputPath =
      c.outputPath.or (ss.findSome? (·.outputPath)) := by
  induction ss generalizing c with
  | nil => exact Option.or_none.symm
  | cons s ss ih =>
    rw [List.foldl_cons, ih, Configuration.apply, Option.or_assoc, List.findSome?_cons]
    cases s.outputPath <;> rfl

/-- The directory of a configuration is the first that one of its groups names. -/
theorem outputPath_of_mem {gs : List Element} {c : Configuration}
    (hc : c ∈ configurations (gs.map Role.ofGroup)) :
    c.outputPath = (groupsOf gs (configurations (gs.map Role.ofGroup)) c).findSome? fun g =>
      (Settings.ofGroup g).outputPath := by
  obtain ⟨start, -, -, houtputPath, hstart⟩ := exists_start hc
  have htaken := outputPath_foldl_apply
    ((groupsOf gs (configurations (gs.map Role.ofGroup)) c).map Settings.ofGroup) start
  rw [houtputPath, List.findSome?_map] at htaken
  exact (congrArg Configuration.outputPath hstart).trans htaken

/-- Of groups that name no directory for programs only the one for compiled units is left. -/
theorem findSome?_outputPath {gs : List Element} (h : ∀ g ∈ gs, child? g "DCC_ExeOutput" = none) :
    (gs.findSome? fun g => (Settings.ofGroup g).outputPath) =
      (gs.findSome? (child? · "DCC_DcuOutput")).map forwardSlashes := by
  induction gs with
  | nil => rfl
  | cons g gs ih =>
    obtain ⟨hg, hgs⟩ := List.forall_mem_cons.mp h
    rw [List.findSome?_cons, List.findSome?_cons, ih hgs, Settings.ofGroup]
    dsimp only
    rw [hg, Option.none_or]
    cases child? g "DCC_DcuOutput" <;> rfl

theorem mem_of_mem_groupsOf {gs : List Element} {cs : List Configuration} {c : Configuration}
    {g : Element} (h : g ∈ groupsOf gs cs c) : g ∈ gs := by
  rcases List.mem_append.mp h with hfirst | hkeyed
  · exact List.mem_of_find?_eq_some (Option.mem_toList.mp hfirst)
  · exact List.mem_of_mem_filter hkeyed

section
variable {tree : FileTree} {s : Surroundings} {root root' : Element} {m m' : Metadata}
  {a a' : Configuration}

/-- **Where the program goes.** -/
theorem exeOutput_eq (h : ofTree tree s root = .ok m) (ha : m.activeConfiguration? = some a) :
    m.exeOutput = (exeDirectory? root m.configurations a).map fun path =>
      forwardSlashes (substitute (knownVariables m.platform (some a.name) s) path) := by
  obtain ⟨c, hc, hactive, -, hsubst, hgroups⟩ := exists_active_of_ofTree h ha
  have hscalar : (Readings.ofTree tree s root).scalar "DCC_ExeOutput" =
      scalar? (plainGroups root ++ conditionedGroups root) "DCC_ExeOutput" := by
    rw [readings_eq]
  have hdirectory : ((Readings.ofTree tree s root).scalar "DCC_ExeOutput").or c.outputPath =
      exeDirectory? root m.configurations a := by
    rw [hscalar, exeDirectory?, outputGroup?, hgroups, ← scalar?_eq_bind]
    cases hfirst : scalar? (plainGroups root ++ conditionedGroups root) "DCC_ExeOutput" with
    | some path => rfl
    | none =>
      -- no group names a directory for programs, and so none of the configuration does
      have hnone := List.findSome?_eq_none_iff.mp hfirst
      rw [Option.none_or, Option.none_or, outputPath_of_mem hc, findSome?_outputPath]
      intro g hg
      exact hnone g (List.mem_append_right _ (mem_of_mem_groupsOf hg))
  rw [← hdirectory, ← hsubst, eq_metadata_of_ofTree h]
  show Option.map _
    (Option.or _ ((Readings.ofTree tree s root).active?.getD (.named [])).outputPath) = _
  rw [hactive]
  rfl

/-! ### Other configurations -/

/-- The children of a group that name directories. -/
def outputNames : List Text := ["DCC_ExeOutput", "DCC_DcuOutput"]

theorem areOptions_outputNames : AreOptions outputNames := by
  decide +kernel

/-- The group that says where the program goes, if there is one, is not for another
configuration. -/
def TakesOwn (cs : List Configuration) (c : Configuration) (root : Element) : Prop :=
  ∀ g ∈ outputGroup? root, isForOther cs c g = false

instance (cs : List Configuration) (c : Configuration) (root : Element) :
    Decidable (TakesOwn cs c root) :=
  inferInstanceAs (Decidable (∀ g ∈ outputGroup? root, _))

/-- A group without a condition is for all configurations. -/
theorem takesOwn_of_plain {cs : List Configuration} {c : Configuration} {root : Element}
    (h : (plainGroups root).any (fun g => (child? g "DCC_ExeOutput").isSome) = true) :
    TakesOwn cs c root := by
  obtain ⟨first, hfirst⟩ := Option.isSome_iff_exists.mp
    (List.find?_isSome.mpr (List.any_eq_true.mp h))
  intro g hg
  rw [outputGroup?, List.find?_append, hfirst, Option.some_or] at hg
  obtain rfl := Option.some.inj hg
  have hplain : first ∈ plainGroups root := List.mem_of_find?_eq_some hfirst
  exact isForOther_of_plain (List.mem_filter.mp hplain).2

theorem isForOther_sameBut {names : List Text} {cs : List Configuration} {c : Configuration}
    {g g' : Element} (h : SameBut names g g') : isForOther cs c g' = isForOther cs c g := by
  rw [isForOther, declaredName?_sameBut h, keyOf?_sameBut h, isForOther]

/-- If a search finds no group for another configuration in either of two lists, it finds the same
group in both. -/
theorem find?_sameGroups {names : List Text} {cs : List Configuration} {c : Configuration}
    {gs gs' : List Element} (h : List.Forall₂ (SameGroupBut names cs c) gs gs')
    {p : Element → Bool} (hown : ∀ g ∈ gs.find? p, isForOther cs c g = false)
    (hown' : ∀ g ∈ gs'.find? p, isForOther cs c g = false) : gs'.find? p = gs.find? p := by
  induction h with
  | nil => rfl
  | @cons g g' gs gs' hg _ ih =>
    rw [List.find?_cons] at hown hown' ⊢
    rw [List.find?_cons]
    cases hg with
    | refl =>
      cases hp : p g with
      | true => rfl
      | false =>
        rw [hp] at hown hown'
        exact ih hown hown'
    | other hother hbut =>
      -- neither of the two is found
      have hother' : isForOther cs c g' = true := (isForOther_sameBut hbut).trans hother
      cases hp : p g with
      | true =>
        rw [hp] at hown
        rw [hown g rfl] at hother
        cases hother
      | false => cases hp' : p g' with
        | true =>
          rw [hp'] at hown'
          rw [hown' g' rfl] at hother'
          cases hother'
        | false =>
          rw [hp] at hown
          rw [hp'] at hown'
          exact ih hown hown'

theorem SameForBut.groups {names : List Text} {cs : List Configuration} {c : Configuration}
    (h : SameForBut names cs c root root') :
    List.Forall₂ (SameGroupBut names cs c) (plainGroups root ++ ProjectFile.conditionedGroups root)
      (plainGroups root' ++ ProjectFile.conditionedGroups root') := by
  rw [h.plainGroups_eq]
  exact List.rel_append (List.forall₂_same.mpr fun g _ => .refl g) h.conditionedGroups

/-- What the directory depends on. -/
theorem exeOutput_congr {names : List Text} (hnames : AreOptions names)
    (hsame : SameForBut names m.configurations a root root') (h : ofTree tree s root = .ok m)
    (h' : ofTree tree s root' = .ok m') (ha : m.activeConfiguration? = some a)
    (hgroup : (outputGroup? root').bind (child? · "DCC_ExeOutput") =
      (outputGroup? root).bind (child? · "DCC_ExeOutput")) : m'.exeOutput = m.exeOutput := by
  obtain ⟨a', ha'⟩ := exists_activeConfiguration? h'
  obtain ⟨hplatform, hname, hgroups⟩ := hsame.active hnames h h' ha ha'
  rw [exeOutput_eq h' ha', exeOutput_eq h ha, exeDirectory?, exeDirectory?, hgroup, hgroups,
    hplatform, hname]

/-- **Main.**  Where a project file can be read, it has an active configuration, and the program
goes to the directory that the first group with a directory for programs names, with its variables
replaced; if no group names one, to the first directory for compiled units of the active
configuration.
* In every tree that differs only in the directories of groups for other configurations, the program
  goes to the same place, unless in one of the two trees it is such a group that says where.
* In every tree that differs only in the directories for compiled units of these groups, it goes to
  the same place in any case. -/
theorem ofTree_exeOutput (h : ofTree tree s root = .ok m) :
    ∃ a, m.activeConfiguration? = some a ∧
      m.exeOutput = (exeDirectory? root m.configurations a).map (fun path =>
        forwardSlashes (substitute (knownVariables m.platform (some a.name) s) path)) ∧
      (∀ root', SameForBut outputNames m.configurations a root root' →
        ∃ m', ofTree tree s root' = .ok m' ∧
          (TakesOwn m.configurations a root → TakesOwn m.configurations a root' →
            m'.exeOutput = m.exeOutput)) ∧
      ∀ root', SameForBut ["DCC_DcuOutput"] m.configurations a root root' →
        ∃ m', ofTree tree s root' = .ok m' ∧ m'.exeOutput = m.exeOutput := by
  obtain ⟨a, ha⟩ := exists_activeConfiguration? h
  refine ⟨a, ha, exeOutput_eq h ha, ?_, ?_⟩
  · intro root' hsame
    refine ⟨_, hsame.ofTree_eq h, ?_⟩
    intro hown hown'
    apply exeOutput_congr areOptions_outputNames hsame h (hsame.ofTree_eq h) ha
    rw [outputGroup?, find?_sameGroups hsame.groups hown hown', outputGroup?]
  · intro root' hsame
    refine ⟨_, hsame.ofTree_eq h, ?_⟩
    apply exeOutput_congr (by decide +kernel) hsame h (hsame.ofTree_eq h) ha
    rw [outputGroup?, outputGroup?, ← scalar?_eq_bind, ← scalar?_eq_bind,
      hsame.scalar?_eq (by decide +kernel)]

end

/-- A group for a configuration, with children. -/
def groupFor (condition : Text) (children : List Element) : Element :=
  ⟨none, "PropertyGroup", [("Condition", condition)], [], children⟩

/-- A project file in which `Debug` is active, with what the groups say for all configurations, for
`Release` and for `Debug`, in this order. -/
def twoOutputs (all release debug : List Element) : Element :=
  ⟨none, "Project", [], [],
    [⟨none, "PropertyGroup", [], [], ⟨none, "Config", [], "Debug", []⟩ :: all⟩,
      groupFor "'$(Config)'=='Release'" release, groupFor "'$(Config)'=='Debug'" debug]⟩

/-- A child that names a directory for programs. -/
def programsTo (path : Text) : Element := ⟨none, "DCC_ExeOutput", [], path, []⟩

/-- Two such trees may differ in the directories of the group for `Release`. -/
theorem sameForBut_twoOutputs {cs : List Configuration} {a : Configuration} (ha : a.name = "Debug")
    (all debug : List Element) (path path' : Text) :
    SameForBut outputNames cs a (twoOutputs all [programsTo path] debug)
      (twoOutputs all [programsTo path'] debug) := by
  have hother : isForOther cs a (groupFor "'$(Config)'=='Release'" [programsTo path]) = true := by
    have hdeclared : declaredName? (groupFor "'$(Config)'=='Release'" [programsTo path]) =
        some (ofString "Release") := by
      show declares? (ofString "'$(Config)'=='Release'") = _
      decide +kernel
    rw [isForOther, hdeclared, ha]
    show (!eqFold (ofString "Release") (ofString "Debug")) = true
    decide +kernel
  have hchildren (p : Text) : [programsTo p].filter
      (fun c => !outputNames.any c.hasLocalName) = [] := by
    rfl
  have hbut : SameBut outputNames (groupFor "'$(Config)'=='Release'" [programsTo path])
      (groupFor "'$(Config)'=='Release'" [programsTo path']) :=
    ⟨rfl, (hchildren path).trans (hchildren path').symm⟩
  exact ⟨rfl, .cons (.refl _) (.cons (.other hother hbut) (.cons (.refl _) .nil))⟩

/-- A directory for all configurations counts, whatever `Release` says. -/
theorem ofTree_twoOutputs :
    let root := twoOutputs [programsTo "bin\\$(Config)"] [programsTo "rel"] [programsTo "dbg"]
    let root' := twoOutputs [programsTo "bin\\$(Config)"] [programsTo "out"] [programsTo "dbg"]
    ∃ m m' a, ofTree .empty ⟨none, none, none⟩ root = .ok m ∧
      ofTree .empty ⟨none, none, none⟩ root' = .ok m' ∧ m.activeConfiguration? = some a ∧
      SameForBut outputNames m.configurations a root root' ∧
      TakesOwn m.configurations a root ∧ TakesOwn m.configurations a root' ∧
      m.exeOutput = some (ofString "bin/Debug") ∧ m'.exeOutput = m.exeOutput := by
  intro root root'
  have hread : (ofTree .empty ⟨none, none, none⟩ root).toOption.map
      (fun m => (m.exeOutput, m.activeConfiguration?.map (·.name))) =
        some (some (ofString "bin/Debug"), some (ofString "Debug")) := by
    decide +kernel
  obtain ⟨m, hm, hread⟩ := exists_ok_of_toOption hread
  obtain ⟨hexe, hname⟩ := Prod.mk.inj hread
  obtain ⟨a, ha, -, hother, -⟩ := ofTree_exeOutput hm
  rw [ha] at hname
  have hsame : SameForBut outputNames m.configurations a root root' :=
    sameForBut_twoOutputs (Option.some.inj hname) _ _ _ _
  have hown : TakesOwn m.configurations a root := takesOwn_of_plain (by decide +kernel)
  have hown' : TakesOwn m.configurations a root' := takesOwn_of_plain (by decide +kernel)
  obtain ⟨m', hm', hsameOutput⟩ := hother root' hsame
  exact ⟨m, m', a, hm, hm', ha, hsame, hown, hown', hexe, hsameOutput hown hown'⟩

/-- Without it, the program of `Debug` goes where `Release` says, since that group stands first. -/
theorem exeOutput_otherGroup :
    let root := twoOutputs [] [programsTo "rel"] [programsTo "dbg"]
    let root' := twoOutputs [] [programsTo "out"] [programsTo "dbg"]
    ∃ m m' a, ofTree .empty ⟨none, none, none⟩ root = .ok m ∧
      ofTree .empty ⟨none, none, none⟩ root' = .ok m' ∧ m.activeConfiguration? = some a ∧
      a.name = ofString "Debug" ∧ SameForBut outputNames m.configurations a root root' ∧
      m.exeOutput = some (ofString "rel") ∧ m'.exeOutput = some (ofString "out") := by
  intro root root'
  have hread : (ofTree .empty ⟨none, none, none⟩ root).toOption.map
      (fun m => (m.exeOutput, m.activeConfiguration?.map (·.name))) =
        some (some (ofString "rel"), some (ofString "Debug")) := by
    decide +kernel
  have hread' : (ofTree .empty ⟨none, none, none⟩ root').toOption.map (·.exeOutput) =
      some (some (ofString "out")) := by
    decide +kernel
  obtain ⟨m, hm, hread⟩ := exists_ok_of_toOption hread
  obtain ⟨m', hm', hexe'⟩ := exists_ok_of_toOption hread'
  obtain ⟨hexe, hname⟩ := Prod.mk.inj hread
  obtain ⟨a, ha⟩ := exists_activeConfiguration? hm
  rw [ha] at hname
  have hdebug : a.name = ofString "Debug" := Option.some.inj hname
  exact ⟨m, m', a, hm, hm', ha, hdebug, sameForBut_twoOutputs hdebug _ _ _ _, hexe, hexe'⟩

end PascalSurvey.ProjectFile
