/-
PascalSurvey/Proofs/ProjectFile/Configurations.lean

The configurations of a project file.  Two passes make them: the groups that declare one come
first, where a name that is declared again does not count, and then the settings for keys go to the
first configuration with the key.  Neither a name nor a key changes in the second pass, so which
settings a configuration gets is known beforehand (`foldl_applyKeyed`).

The names of the configurations differ, in any case (`namesApart_configurations`), there is at least
one, and hence an active one.
-/
import PascalSurvey.Proofs.ProjectFile.Groups

namespace PascalSurvey.ProjectFile

open Text
open Xml (Element)

/-! ### Declared configurations -/

/-- No two configurations have the same name, in any case. -/
def NamesApart (cs : List Configuration) : Prop :=
  cs.Pairwise fun a b => eqFold a.name b.name = false

instance (cs : List Configuration) : Decidable (NamesApart cs) :=
  inferInstanceAs (Decidable (cs.Pairwise _))

/-- Only the names of the configurations matter. -/
theorem namesApart_iff_map {cs : List Configuration} :
    NamesApart cs ↔ (cs.map (·.name)).Pairwise fun a b => eqFold a b = false := by
  rw [List.pairwise_map]
  rfl

theorem NamesApart.congr {cs ds : List Configuration} (h : NamesApart cs)
    (hnames : ds.map (·.name) = cs.map (·.name)) : NamesApart ds := by
  rwa [namesApart_iff_map, hnames, ← namesApart_iff_map]

/-- Adds a configuration, unless there is one of that name. -/
def addConfiguration (cs : List Configuration) (c : Configuration) : List Configuration :=
  if (configuration? cs c.name).isSome then cs else cs ++ [c]

theorem declaredConfigurations_map (gs : List Element) :
    declaredConfigurations (gs.map Role.ofGroup) =
      (gs.filterMap declaration?).foldl addConfiguration [] := by
  rw [declaredConfigurations, List.foldl_filterMap, List.foldl_map]
  congr
  funext cs g
  rw [ofGroup_eq]
  cases declaration? g with
  | some c => rfl
  | none => cases keyOf? g <;> rfl

theorem isSome_configuration? {cs : List Configuration} {name : Text} :
    (configuration? cs name).isSome = true ↔ ∃ c ∈ cs, eqFold c.name name = true := by
  rw [configuration?, List.find?_isSome]

/-- **A declaration keeps the names apart.** -/
theorem NamesApart.addConfiguration {cs : List Configuration} (h : NamesApart cs)
    (c : Configuration) : NamesApart (addConfiguration cs c) := by
  rw [ProjectFile.addConfiguration]
  split
  · exact h
  · next hnew =>
    refine List.pairwise_append.mpr ⟨h, List.pairwise_singleton _ _, ?_⟩
    intro a ha b hb
    obtain rfl := List.mem_singleton.mp hb
    rw [Bool.eq_false_iff]
    intro hname
    exact hnew (isSome_configuration?.mpr ⟨a, ha, hname⟩)

theorem namesApart_declaredConfigurations (gs : List Element) :
    NamesApart (declaredConfigurations (gs.map Role.ofGroup)) := by
  rw [declaredConfigurations_map]
  apply List.foldlRecOn (motive := NamesApart)
  · exact List.Pairwise.nil
  · intro cs hcs c _
    exact hcs.addConfiguration c

/-- A name is looked up in what is there already, and then in what comes in. -/
theorem configuration?_addConfiguration (cs : List Configuration) (d : Configuration)
    (name : Text) :
    configuration? (addConfiguration cs d) name =
      (configuration? cs name).or (configuration? [d] name) := by
  rw [addConfiguration]
  split
  · next hold =>
    -- a configuration of the name of `d` is there already, and it answers for that name
    cases hname : eqFold d.name name with
    | false => simp [configuration?, hname]
    | true =>
      obtain ⟨c, hc, hcd⟩ := isSome_configuration?.mp hold
      have hsome : (configuration? cs name).isSome = true := by
        refine isSome_configuration?.mpr ⟨c, hc, ?_⟩
        rw [eqFold_iff, eqFold_iff.mp hcd, eqFold_iff.mp hname]
      rw [Option.or_of_isSome hsome]
  · exact List.find?_append

/-- **The first declaration of a name counts.** -/
theorem configuration?_foldl_addConfiguration (ds cs : List Configuration) (name : Text) :
    configuration? (ds.foldl addConfiguration cs) name =
      (configuration? cs name).or (configuration? ds name) := by
  induction ds generalizing cs with
  | nil => exact Option.or_none.symm
  | cons d ds ih =>
    rw [List.foldl_cons, ih, configuration?_addConfiguration, Option.or_assoc]
    congr 1
    show _ = ([d] ++ ds).find? _
    exact List.find?_append.symm

/-! ### Settings for keys -/

/-- The configuration to which settings for a key go: the first one with that key. -/
def owner? (cs : List Configuration) (key : Text) : Option Configuration :=
  cs.find? fun c => !c.key.isEmpty && c.key == key

/-- Whether settings for a key go to a configuration. -/
def owns (cs : List Configuration) (c : Configuration) (key : Text) : Bool :=
  (owner? cs key).any (·.name == c.name)

/-- Whether a group holds settings for the key of a configuration. -/
def isFor (cs : List Configuration) (c : Configuration) (g : Element) : Bool :=
  (keyOf? g).any fun key => key != ofString "Base" && owns cs c key

/-- Owners are known from the names and the keys. -/
theorem owns_map {f : Configuration → Configuration} (hname : ∀ c, (f c).name = c.name)
    (hkey : ∀ c, (f c).key = c.key) (cs : List Configuration) (c : Configuration) (key : Text) :
    owns (cs.map f) (f c) key = owns cs c key := by
  rw [owns, owns, owner?, owner?, List.find?_map, Option.any_map]
  simp only [Function.comp_def, hname, hkey]

theorem isFor_map {f : Configuration → Configuration} (hname : ∀ c, (f c).name = c.name)
    (hkey : ∀ c, (f c).key = c.key) (cs : List Configuration) (c : Configuration) :
    isFor (cs.map f) (f c) = isFor cs c := by
  funext g
  simp only [isFor, owns_map hname hkey]

theorem beq_eq_false_of_eqFold {a b : Text} (h : eqFold a b = false) : (a == b) = false := by
  rw [beq_eq_false_iff_ne]
  rintro rfl
  rw [eqFold_iff.mpr rfl] at h
  cases h

theorem applyKeyed_eq_map {cs : List Configuration} (h : NamesApart cs) (key : Text)
    (s : Settings) :
    applyKeyed key s cs = cs.map fun c => if owns cs c key then c.apply s else c := by
  induction cs with
  | nil => rfl
  | cons c cs ih =>
    obtain ⟨hc, hcs⟩ := List.pairwise_cons.mp h
    rw [applyKeyed, List.map_cons]
    cases hfirst : !c.key.isEmpty && c.key == key with
    | true =>
      -- the settings go to `c`, and to no later one
      have howner : owner? (c :: cs) key = some c := by rw [owner?, List.find?_cons, hfirst]
      have hrest : ∀ d ∈ cs, (if owns (c :: cs) d key then d.apply s else d) = d := by
        intro d hd
        rw [owns, howner, Option.any_some, beq_eq_false_of_eqFold (hc d hd), if_neg Bool.false_ne_true]
      rw [owns, howner, Option.any_some, beq_self_eq_true, if_pos rfl, if_pos rfl,
        List.map_congr_left hrest, List.map_id']
    | false =>
      have howner : owner? (c :: cs) key = owner? cs key := by
        rw [owner?, List.find?_cons, hfirst]
        rfl
      have hrest (d : Configuration) : owns (c :: cs) d key = owns cs d key := by
        rw [owns, howner, owns]
      have hself : owns (c :: cs) c key = false := by
        rw [hrest, owns, ← Bool.not_eq_true, Option.any_eq_true]
        rintro ⟨d, hd, hname⟩
        have hapart := beq_eq_false_of_eqFold (hc d (List.mem_of_find?_eq_some hd))
        rw [eq_of_beq hname, beq_self_eq_true] at hapart
        cases hapart
      rw [hself, if_neg Bool.false_ne_true, if_neg Bool.false_ne_true, ih hcs]
      simp only [hrest]

/-- **Settings for keys go to the owners of the keys, in order.** -/
theorem foldl_applyKeyed {cs : List Configuration} (h : NamesApart cs)
    (keyed : List (Text × Settings)) :
    keyed.foldl (fun cs (key, s) => applyKeyed key s cs) cs =
      cs.map fun c =>
        ((keyed.filter fun (key, _) => owns cs c key).map (·.2)).foldl Configuration.apply c := by
  induction keyed generalizing cs with
  | nil => simp
  | cons first keyed ih =>
    obtain ⟨key, s⟩ := first
    have hname (c : Configuration) : (if owns cs c key then c.apply s else c).name = c.name := by
      split <;> rfl
    have hkey (c : Configuration) : (if owns cs c key then c.apply s else c).key = c.key := by
      split <;> rfl
    rw [List.foldl_cons]
    show keyed.foldl _ (applyKeyed key s cs) = _
    rw [applyKeyed_eq_map h, ih (h.congr (by simp [hname])), List.map_map]
    refine List.map_congr_left fun c _ => ?_
    rw [Function.comp, List.filter_cons]
    simp only [owns_map hname hkey]
    cases owns cs c key <;> rfl

theorem name_foldl_apply (ss : List Settings) (c : Configuration) :
    (ss.foldl Configuration.apply c).name = c.name := by
  induction ss generalizing c with
  | nil => rfl
  | cons s ss ih => exact ih (c.apply s)

theorem key_foldl_apply (ss : List Settings) (c : Configuration) :
    (ss.foldl Configuration.apply c).key = c.key := by
  induction ss generalizing c with
  | nil => rfl
  | cons s ss ih => exact ih (c.apply s)

/-! ### All configurations -/

/-- The configurations that groups declare. -/
def declared (gs : List Element) : List Configuration :=
  declaredConfigurations (gs.map Role.ofGroup)

/-- A declared configuration with the settings for its key. -/
def completed (gs : List Element) (c : Configuration) : Configuration :=
  markDebug (((gs.filter (isFor (declared gs) c)).map Settings.ofGroup).foldl Configuration.apply c)

theorem name_completed (gs : List Element) (c : Configuration) : (completed gs c).name = c.name :=
  name_foldl_apply _ c

theorem key_completed (gs : List Element) (c : Configuration) : (completed gs c).key = c.key :=
  key_foldl_apply _ c

theorem configurations_map (gs : List Element) :
    configurations (gs.map Role.ofGroup) =
      if (declared gs).isEmpty then defaultConfigurations.map markDebug
      else (declared gs).map (completed gs) := by
  have happly (c : Configuration) :
      (((keyedSettings (gs.map Role.ofGroup)).filter fun (key, _) => key != ofString "Base").filter
          fun (key, _) => owns (declared gs) c key).map (·.2) =
        (gs.filter (isFor (declared gs) c)).map Settings.ofGroup := by
    rw [List.filter_filter]
    refine (filter_keyedSettings (fun key => owns (declared gs) c key && key != ofString "Base")
      gs).trans ?_
    congr 2
    funext g
    simp only [isFor, Bool.and_comm]
  have hapart : NamesApart (declared gs) := namesApart_declaredConfigurations gs
  have hkeyed := foldl_applyKeyed hapart
    ((keyedSettings (gs.map Role.ofGroup)).filter fun (key, _) => key != ofString "Base")
  simp only [happly] at hkeyed
  rw [configurations]
  dsimp only
  rw [show declaredConfigurations (gs.map Role.ofGroup) = declared gs from rfl, hkeyed,
    List.isEmpty_map]
  cases (declared gs).isEmpty with
  | true => rfl
  | false => exact List.map_map

theorem configurations_ne_nil (gs : List Element) : configurations (gs.map Role.ofGroup) ≠ [] := by
  rw [configurations_map]
  cases h : declared gs with
  | nil => simp [defaultConfigurations]
  | cons c cs => simp

/-- **The names of the configurations differ.** -/
theorem namesApart_configurations (gs : List Element) :
    NamesApart (configurations (gs.map Role.ofGroup)) := by
  rw [configurations_map]
  split
  · show NamesApart (defaultConfigurations.map markDebug)
    decide +kernel
  · exact (namesApart_declaredConfigurations gs).congr (by simp [name_completed, declared])

/-- The groups whose settings a configuration gets: the first one that declares its name, and those
for its key if it is the first configuration with that key. -/
def groupsOf (gs : List Element) (cs : List Configuration) (c : Configuration) : List Element :=
  (gs.find? fun g => (declaredName? g).any (eqFold · c.name)).toList ++ gs.filter (isFor cs c)

theorem groupsOf_map {f : Configuration → Configuration} (hname : ∀ c, (f c).name = c.name)
    (hkey : ∀ c, (f c).key = c.key) (gs : List Element) (cs : List Configuration)
    (c : Configuration) : groupsOf gs (cs.map f) (f c) = groupsOf gs cs c := by
  rw [groupsOf, hname, isFor_map hname hkey, groupsOf]

theorem exists_of_mem_declared {gs : List Element} {d : Configuration} (h : d ∈ declared gs) :
    ∃ g, (gs.find? fun g => (declaredName? g).any (eqFold · d.name)) = some g ∧
      declaration? g = some d := by
  have hlookup := configuration?_foldl_addConfiguration (gs.filterMap declaration?) [] d.name
  rw [← declaredConfigurations_map] at hlookup
  have hself : configuration? (declared gs) d.name = some d := by
    obtain ⟨before, after, hsplit⟩ := List.append_of_mem h
    have hapart := namesApart_declaredConfigurations gs
    rw [show declaredConfigurations (gs.map Role.ofGroup) = declared gs from rfl, hsplit] at hapart
    rw [hsplit]
    refine List.find?_eq_some_iff_append.mpr ⟨eqFold_iff.mpr rfl, before, after, rfl, ?_⟩
    intro c hc
    rw [(List.pairwise_append.mp hapart).2.2 c hc d List.mem_cons_self]
    rfl
  have hfind : (gs.filterMap declaration?).find? (fun c => eqFold c.name d.name) = some d :=
    hlookup.symm.trans hself
  rw [List.find?_filterMap] at hfind
  obtain ⟨g, hg, hdeclares⟩ := Option.bind_eq_some_iff.mp hfind
  refine ⟨g, ?_, hdeclares⟩
  rw [← hg]
  congr
  funext g
  rw [declaration?, Option.any_map]
  rfl

theorem declared_eq_nil {gs : List Element} (h : declared gs = []) :
    ∀ g ∈ gs, declaredName? g = none := by
  intro g hg
  cases hname : declaredName? g with
  | none => rfl
  | some name =>
    have hlookup := configuration?_foldl_addConfiguration (gs.filterMap declaration?) [] name
    rw [← declaredConfigurations_map, show declaredConfigurations (gs.map Role.ofGroup) = [] from h]
      at hlookup
    have hdeclares : declaration? g =
        some ({ Configuration.named name with key := declaredKey g }.apply (.ofGroup g)) := by
      rw [declaration?, hname]
      rfl
    have hnone := List.find?_eq_none.mp hlookup.symm _ (List.mem_filterMap.mpr ⟨g, hg, hdeclares⟩)
    exact absurd (eqFold_iff.mpr rfl) hnone

/-- **A configuration is made of the settings of its groups, in order.** -/
theorem exists_start {gs : List Element} {c : Configuration}
    (hc : c ∈ configurations (gs.map Role.ofGroup)) :
    ∃ start : Configuration, start.defines = [] ∧ start.searchPaths = [] ∧ start.outputPath = none ∧
      c = markDebug (((groupsOf gs (configurations (gs.map Role.ofGroup)) c).map
        Settings.ofGroup).foldl Configuration.apply start) := by
  rw [configurations_map] at hc ⊢
  cases hempty : (declared gs).isEmpty with
  | true =>
    -- no group declares anything, and the default configurations have no keys
    rw [hempty, if_pos rfl] at hc
    rw [if_pos rfl]
    obtain ⟨d, hd, rfl⟩ := List.mem_map.mp hc
    have hkeys : ∀ key, owner? (defaultConfigurations.map markDebug) key = none := by
      intro key
      rfl
    have hgroups : groupsOf gs (defaultConfigurations.map markDebug) (markDebug d) = [] := by
      rw [groupsOf, List.append_eq_nil_iff, Option.toList_eq_nil_iff, List.find?_eq_none,
        List.filter_eq_nil_iff]
      constructor
      · intro g hg
        rw [declared_eq_nil (List.isEmpty_iff.mp hempty) g hg]
        exact Bool.false_ne_true
      · intro g hg
        simp [isFor, owns, hkeys]
    rw [hgroups]
    have hblank : ∀ c ∈ defaultConfigurations,
        c.defines = [] ∧ c.searchPaths = [] ∧ c.outputPath = none := by
      decide +kernel
    obtain ⟨hdefines, hsearchPaths, houtputPath⟩ := hblank d hd
    exact ⟨d, hdefines, hsearchPaths, houtputPath, rfl⟩
  | false =>
    rw [hempty, if_neg Bool.false_ne_true] at hc
    rw [if_neg Bool.false_ne_true]
    obtain ⟨d, hd, rfl⟩ := List.mem_map.mp hc
    obtain ⟨g, hg, hdeclares⟩ := exists_of_mem_declared hd
    obtain ⟨name, hname, rfl⟩ := Option.map_eq_some_iff.mp hdeclares
    refine ⟨{ Configuration.named name with key := declaredKey g }, rfl, rfl, rfl, ?_⟩
    rw [groupsOf_map (name_completed gs) (key_completed gs), groupsOf, hg]
    rfl

/-- The items of a property that a configuration gets from its groups. -/
def ownItems (gs : List Element) (cs : List Configuration) (c : Configuration) (property : Text) :
    List Text :=
  dedupFold ((groupsOf gs cs c).flatMap (listItems property))

theorem lists_of_mem {gs : List Element} {c : Configuration}
    (hc : c ∈ configurations (gs.map Role.ofGroup)) :
    c.defines = ownItems gs (configurations (gs.map Role.ofGroup)) c "DCC_Define" ∧
      c.searchPaths =
        ownItems gs (configurations (gs.map Role.ofGroup)) c "DCC_UnitSearchPath" := by
  obtain ⟨start, hdefines, hsearchPaths, -, hstart⟩ := exists_start hc
  constructor
  · have htaken := foldl_ofGroup Configuration.defines Configuration.apply "DCC_Define"
      (fun _ _ => rfl) (groupsOf gs (configurations (gs.map Role.ofGroup)) c) start
    rw [hdefines] at htaken
    exact (congrArg Configuration.defines hstart).trans htaken
  · have htaken := foldl_ofGroup Configuration.searchPaths Configuration.apply "DCC_UnitSearchPath"
      (fun _ _ => rfl) (groupsOf gs (configurations (gs.map Role.ofGroup)) c) start
    rw [hsearchPaths] at htaken
    exact (congrArg Configuration.searchPaths hstart).trans htaken

/-! ### Names and keys -/

/-- A configuration of which only the name and the key are known. -/
def Configuration.bare (c : Configuration) : Configuration :=
  { Configuration.named c.name with key := c.key }

theorem configuration?_map {f : Configuration → Configuration} (hname : ∀ c, (f c).name = c.name)
    (cs : List Configuration) (name : Text) :
    configuration? (cs.map f) name = (configuration? cs name).map f := by
  rw [configuration?, configuration?, List.find?_map]
  simp only [Function.comp_def, hname]

theorem map_bare_foldl_addConfiguration (ds cs : List Configuration) :
    (ds.foldl addConfiguration cs).map Configuration.bare =
      (ds.map Configuration.bare).foldl addConfiguration (cs.map Configuration.bare) := by
  have hname (c : Configuration) : c.bare.name = c.name := rfl
  induction ds generalizing cs with
  | nil => rfl
  | cons d ds ih =>
    rw [List.foldl_cons, ih, List.map_cons, List.foldl_cons]
    congr 1
    rw [addConfiguration, addConfiguration, configuration?_map hname, Option.isSome_map, hname]
    split
    · rfl
    · exact List.map_append

/-- The names and keys of the configurations are known from the names and keys that the groups
declare. -/
theorem map_bare_configurations {gs gs' : List Element}
    (h : gs.map (fun g => (declaration? g).map Configuration.bare) =
      gs'.map fun g => (declaration? g).map Configuration.bare) :
    (configurations (gs.map Role.ofGroup)).map Configuration.bare =
      (configurations (gs'.map Role.ofGroup)).map Configuration.bare := by
  have hbare (gs : List Element) : (declared gs).map Configuration.bare =
      ((gs.map fun g => (declaration? g).map Configuration.bare).filterMap id).foldl addConfiguration [] := by
    rw [declared, declaredConfigurations_map, map_bare_foldl_addConfiguration, List.map_filterMap,
      List.filterMap_map]
    rfl
  have hcompleted (gs : List Element) (c : Configuration) : (completed gs c).bare = c.bare := by
    rw [Configuration.bare, name_completed, key_completed, Configuration.bare]
  have hall (gs : List Element) : (configurations (gs.map Role.ofGroup)).map Configuration.bare =
      if ((declared gs).map Configuration.bare).isEmpty then defaultConfigurations.map Configuration.bare
      else (declared gs).map Configuration.bare := by
    rw [configurations_map, List.isEmpty_map]
    split
    · rfl
    · rw [List.map_map]
      exact List.map_congr_left fun c _ => hcompleted gs c
  rw [hall, hall, hbare, hbare, h]

/-! ### The active configuration -/

/-- A configuration with its variables replaced. -/
def Configuration.substituted (subst : Text → Text) (c : Configuration) : Configuration :=
  { c with searchPaths := c.searchPaths.map subst, outputPath := c.outputPath.map subst }

/-- Which configuration is active depends on the names only. -/
theorem active?_map {f : Configuration → Configuration} (hname : ∀ c, (f c).name = c.name)
    (cs : List Configuration) (name : Option Text) :
    active? (cs.map f) name = (active? cs name).map f := by
  have hnamed : name.bind (configuration? (cs.map f)) =
      (name.bind (configuration? cs)).map f := by
    cases name with
    | none => rfl
    | some n => exact configuration?_map hname cs n
  rw [active?, active?, hnamed, List.head?_map]
  cases name.bind (configuration? cs) <;> rfl

theorem mem_of_active? {cs : List Configuration} {name : Option Text} {c : Configuration}
    (h : active? cs name = some c) : c ∈ cs := by
  rcases Option.or_eq_some_iff.mp h with hnamed | ⟨-, hfirst⟩
  · obtain ⟨n, -, hlookup⟩ := Option.bind_eq_some_iff.mp hnamed
    exact List.mem_of_find?_eq_some hlookup
  · exact List.mem_of_mem_head? hfirst

theorem exists_active? {cs : List Configuration} (hcs : cs ≠ []) (name : Option Text) :
    ∃ c, active? cs name = some c := by
  obtain ⟨c, rest, rfl⟩ := List.exists_cons_of_ne_nil hcs
  rw [active?, List.head?_cons]
  cases name.bind (configuration? (c :: rest)) with
  | none => exact ⟨c, rfl⟩
  | some d => exact ⟨d, rfl⟩

/-- The metadata have the configurations with their variables replaced. -/
theorem activeConfiguration?_metadata (r : Readings) (s : Surroundings) :
    (r.metadata s).activeConfiguration? = r.active?.map (.substituted (r.subst s)) := by
  have hname (c : Configuration) : (c.substituted (r.subst s)).name = c.name := rfl
  exact active?_map hname (configurations r.roles) r.activeConfig

theorem eq_metadata_of_ofTree {tree : FileTree} {s : Surroundings} {root : Element} {m : Metadata}
    (h : ofTree tree s root = .ok m) : m = (Readings.ofTree tree s root).metadata s := by
  rw [ofTree_eq] at h
  split at h
  · cases h
  · exact (Except.ok.inj h).symm

theorem configurations_of_ofTree {tree : FileTree} {s : Surroundings} {root : Element}
    {m : Metadata} (h : ofTree tree s root = .ok m) :
    m.configurations = (configurations ((conditionedGroups root).map Role.ofGroup)).map
      (.substituted ((Readings.ofTree tree s root).subst s)) := by
  rw [eq_metadata_of_ofTree h, readings_eq]
  rfl

/-- There is an active configuration. -/
theorem exists_activeConfiguration? {tree : FileTree} {s : Surroundings} {root : Element}
    {m : Metadata} (h : ofTree tree s root = .ok m) : ∃ a, m.activeConfiguration? = some a := by
  rw [eq_metadata_of_ofTree h, activeConfiguration?_metadata, readings_eq]
  obtain ⟨c, hc⟩ := exists_active? (configurations_ne_nil (conditionedGroups root)) _
  exact ⟨_, congrArg (Option.map _) hc⟩

theorem groupsOf_substituted (f : Text → Text) (gs : List Element) (cs : List Configuration)
    (c : Configuration) : groupsOf gs (cs.map (.substituted f)) (c.substituted f) =
      groupsOf gs cs c :=
  groupsOf_map (f := .substituted f) (fun _ => rfl) (fun _ => rfl) gs cs c

/-- **The active configuration is one of those that the groups make, with its variables replaced.**
It has the same groups, and its name is the one that variables stand for. -/
theorem exists_active_of_ofTree {tree : FileTree} {s : Surroundings} {root : Element}
    {m : Metadata} {a : Configuration} (h : ofTree tree s root = .ok m)
    (ha : m.activeConfiguration? = some a) :
    ∃ c ∈ configurations ((conditionedGroups root).map Role.ofGroup),
      (Readings.ofTree tree s root).active? = some c ∧
        a = c.substituted (substitute (knownVariables m.platform (some a.name) s)) ∧
        (Readings.ofTree tree s root).subst s =
          substitute (knownVariables m.platform (some a.name) s) ∧
        groupsOf (conditionedGroups root) m.configurations a =
          groupsOf (conditionedGroups root)
            (configurations ((conditionedGroups root).map Role.ofGroup)) c := by
  have hroles : (Readings.ofTree tree s root).roles =
      (conditionedGroups root).map Role.ofGroup := by
    rw [readings_eq]
  obtain rfl := eq_metadata_of_ofTree h
  rw [activeConfiguration?_metadata] at ha
  obtain ⟨c, hactive, rfl⟩ := Option.map_eq_some_iff.mp ha
  have hsubst : (Readings.ofTree tree s root).subst s =
      substitute (knownVariables (Readings.ofTree tree s root).platform (some c.name) s) := by
    rw [Readings.subst, hactive]
    rfl
  have hmem : c ∈ configurations ((conditionedGroups root).map Role.ofGroup) := by
    rw [← hroles]
    exact mem_of_active? hactive
  refine ⟨c, hmem, hactive, congrArg c.substituted hsubst, hsubst, ?_⟩
  rw [← hroles]
  exact groupsOf_substituted _ _ _ _

end PascalSurvey.ProjectFile
