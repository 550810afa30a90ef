/-
PascalSurvey/Proofs/ProjectFile/SearchPaths.lean

The search paths in effect.  Repeated items are left out of the lists as they are written, and
variables are replaced after that, item by item.  What a text becomes depends only on the values of
the variables in it (`substitute_congr`), and a text without a known variable stays as it is
(`substitute_eq_self`).  So repetitions come back only through variables
(`searchPaths_repeated`).

Main result: two search paths that are equal in any case come from different items, and at least one
of the two items has a known variable (`ofTree_searchPaths`).
-/
import PascalSurvey.Proofs.ProjectFile.Configurations

namespace PascalSurvey.ProjectFile

open Ascii
open Text (ApartFold)
open Xml (Element)

/-! ### Variables -/

/-- The names of the variables in a text. -/
def variableNames : Text → List Text
  | [] => []
  | b :: r => match variableAt? (b :: r) with
    | some (name, n) => name :: variableNames (r.drop (n - 1))
    | none => variableNames r
termination_by t => t.length
decreasing_by all_goals simp only [List.length_drop, List.length_cons]; omega

/-- The value of a variable. -/
def value? (vars : List (Text × Text)) (name : Text) : Option Text :=
  (vars.find? fun (k, _) => Text.eqFold k name).map (·.2)

/-- **What a text becomes depends on the values of its variables only.** -/
theorem substitute_congr {vars vars' : List (Text × Text)} {t : Text}
    (h : ∀ name ∈ variableNames t, value? vars name = value? vars' name) :
    substitute vars t = substitute vars' t := by
  fun_induction variableNames t with
  | case1 => rw [substitute, substitute]
  | case2 b r name n hvar ih =>
    have hvalue := h name List.mem_cons_self
    have hrest := ih fun k hk => h k (List.mem_cons_of_mem name hk)
    rw [substitute, substitute, hvar]
    dsimp only
    rw [hrest]
    exact congrArg (fun v : Option Text => v.getD (b :: r.take (n - 1)) ++ _) hvalue
  | case3 b r hvar ih =>
    rw [substitute, substitute, hvar]
    dsimp only
    rw [ih h]

theorem substitute_nil (t : Text) : substitute [] t = t := by
  fun_induction substitute [] t with
  | case1 => rfl
  | case2 b r name n hvar value ih =>
    rw [ih]
    show (b :: r.take (n - 1)) ++ r.drop (n - 1) = b :: r
    rw [List.cons_append, List.take_append_drop]
  | case3 b r hvar ih => rw [ih]

/-- A text has a variable whose value is known. -/
def NamesKnown (vars : List (Text × Text)) (t : Text) : Prop :=
  ∃ name ∈ variableNames t, (value? vars name).isSome = true

instance (vars : List (Text × Text)) (t : Text) : Decidable (NamesKnown vars t) :=
  inferInstanceAs (Decidable (∃ name ∈ _, _))

/-- **A text without a known variable stays as it is.** -/
theorem substitute_eq_self {vars : List (Text × Text)} {t : Text} (h : ¬NamesKnown vars t) :
    substitute vars t = t := by
  refine (substitute_congr ?_).trans (substitute_nil t)
  intro name hname
  cases hvalue : value? vars name with
  | none => rfl
  | some value => exact absurd ⟨name, hname, by rw [hvalue]; rfl⟩ h

/-! ### Search paths -/

/-- The search paths that count, before variables are replaced. -/
def Readings.searchItems (r : Readings) : List Text :=
  Text.dedupFold (r.base.searchPaths ++ (r.active?.getD (.named [])).searchPaths)

variable {tree : FileTree} {s : Surroundings} {root : Element} {m : Metadata}

/-- Texts that differ stay apart unless variables are replaced in them. -/
theorem pairwise_namesKnown {ts : List Text} (h : ApartFold ts) (vars : List (Text × Text)) :
    ts.Pairwise fun x y => Text.eqFold (substitute vars x) (substitute vars y) = true →
      NamesKnown vars x ∨ NamesKnown vars y := by
  refine h.imp ?_
  intro x y hapart hfold
  by_contra hneither
  obtain ⟨hx, hy⟩ := not_or.mp hneither
  rw [substitute_eq_self hx, substitute_eq_self hy, hapart] at hfold
  cases hfold

theorem apartFold_map_substitute {ts : List Text} (h : ApartFold ts) {vars : List (Text × Text)}
    (hunknown : ∀ t ∈ ts, ¬NamesKnown vars t) : ApartFold (ts.map (substitute vars)) := by
  have hsame : ts.map (substitute vars) = ts := by
    refine List.map_congr_left (fun t ht => ?_) |>.trans (List.map_id _)
    exact substitute_eq_self (hunknown t ht)
  rwa [hsame]

/-- **Main.**  Where a project file can be read:
* of the search paths as they are written, no two are equal in any case, and the search paths in
  effect are these with their variables replaced, one by one;
* two search paths in effect are equal in any case only if one of the two was written with a known
  variable, so without known variables no two are equal;
* of the defines in effect, in which nothing is replaced, no two are equal in any case. -/
theorem ofTree_searchPaths (h : ofTree tree s root = .ok m) :
    let items := (Readings.ofTree tree s root).searchItems
    let vars := knownVariables m.platform (m.activeConfiguration?.map (·.name)) s
    ApartFold items ∧ m.searchPaths = items.map (substitute vars) ∧
      (items.Pairwise fun x y => Text.eqFold (substitute vars x) (substitute vars y) = true →
        NamesKnown vars x ∨ NamesKnown vars y) ∧
      ((∀ item ∈ items, ¬NamesKnown vars item) → ApartFold m.searchPaths) ∧
      ApartFold m.defines := by
  intro items vars
  have hitems : ApartFold items := Text.apartFold_dedupFold _
  have hpaths : m.searchPaths = items.map (substitute vars) := by
    obtain ⟨a, ha⟩ := exists_activeConfiguration? h
    obtain ⟨c, -, -, -, hsubst, -⟩ := exists_active_of_ofTree h ha
    have hvars : substitute vars = (Readings.ofTree tree s root).subst s := by
      rw [hsubst]
      show substitute (knownVariables m.platform (m.activeConfiguration?.map (·.name)) s) = _
      rw [ha]
      rfl
    rw [hvars, eq_metadata_of_ofTree h]
    rfl
  refine ⟨hitems, hpaths, pairwise_namesKnown hitems vars, ?_, ?_⟩
  · intro hunknown
    rw [hpaths]
    exact apartFold_map_substitute hitems hunknown
  · rw [eq_metadata_of_ofTree h]
    exact Text.apartFold_dedupFold _

/-- A project file with search paths for all configurations. -/
def withSearchPaths (paths : Text) : Element :=
  ⟨none, "Project", [], [],
    [⟨none, "PropertyGroup", [], [], [⟨none, "DCC_UnitSearchPath", [], paths, []⟩]⟩]⟩

/-- An unknown variable stays as it is, and does no harm. -/
theorem ofTree_withSearchPaths :
    ∃ m, ofTree .empty ⟨none, none, none⟩ (withSearchPaths "lib;LIB;$(Mystery)\\lib") = .ok m ∧
      m.searchPaths = Text.ofStrings ["lib", "$(Mystery)/lib"] ∧ ApartFold m.searchPaths := by
  have hread : (ofTree .empty ⟨none, none, none⟩
      (withSearchPaths "lib;LIB;$(Mystery)\\lib")).toOption.map (fun m =>
        (m.searchPaths, knownVariables m.platform (m.activeConfiguration?.map (·.name))
          ⟨none, none, none⟩)) =
      some (Text.ofStrings ["lib", "$(Mystery)/lib"],
        knownVariables none (some "Debug") ⟨none, none, none⟩) := by
    decide +kernel
  have hunknown : ∀ item ∈ (Readings.ofTree .empty ⟨none, none, none⟩
      (withSearchPaths "lib;LIB;$(Mystery)\\lib")).searchItems,
        ¬NamesKnown (knownVariables none (some "Debug") ⟨none, none, none⟩) item := by
    decide +kernel
  obtain ⟨m, hm, hread⟩ := exists_ok_of_toOption hread
  obtain ⟨hpaths, hvars⟩ := Prod.mk.inj hread
  obtain ⟨-, -, -, hapart, -⟩ := ofTree_searchPaths hm
  rw [hvars] at hapart
  exact ⟨m, hm, hpaths, hapart hunknown⟩

/-- A path with a variable may come to a path that is written out. -/
theorem searchPaths_repeated :
    ∃ m, ofTree .empty ⟨none, none, none⟩ (withSearchPaths "lib\\$(Platform);lib\\Win32") = .ok m ∧
      m.searchPaths = Text.ofStrings ["lib/Win32", "lib/Win32"] ∧ ¬ApartFold m.searchPaths := by
  have hread : (ofTree .empty ⟨none, none, none⟩
      (withSearchPaths "lib\\$(Platform);lib\\Win32")).toOption.map (·.searchPaths) =
        some (Text.ofStrings ["lib/Win32", "lib/Win32"]) := by
    decide +kernel
  obtain ⟨m, hm, hpaths⟩ := exists_ok_of_toOption hread
  refine ⟨m, hm, hpaths, ?_⟩
  rw [hpaths]
  decide +kernel

end PascalSurvey.ProjectFile
