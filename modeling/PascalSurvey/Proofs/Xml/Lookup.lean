/-
PascalSurvey/Proofs/Xml/Lookup.lean

What a lookup depends on.  A lookup for a name sees of an element only the children of that name
(`all_congr`), so it finds the same in two elements that differ in other children (`SameBut`).
-/
import PascalSurvey.Proofs.Text.Fold
import PascalSurvey.Proofs.Xml.Space

namespace PascalSurvey.Xml.Element

variable {e e' : Element}

theorem all_congr {ns : List Name}
    (h : ∀ n ∈ ns, e.children.filter (·.hasName n) = e'.children.filter (·.hasName n)) :
    e.all ns = e'.all ns := by
  rw [all, all, List.map_congr_left h]

theorem all_singleton (e : Element) (n : Name) : e.all [n] = e.children.filter (·.hasName n) := by
  rw [all_cons]
  split
  · next hempty => exact (List.isEmpty_iff.mp hempty).symm
  · rfl

/-- In which order the children stand does not matter for the choice between two names. -/
theorem exists_all_eq (h : e.children.Perm e'.children) (space name : Text) :
    ∃ n ∈ eitherName space name, e.all (eitherName space name) = e.children.filter (·.hasName n) ∧
      e'.all (eitherName space name) = e'.children.filter (·.hasName n) := by
  have hempty := (h.filter (·.hasName (.qualified space name))).isEmpty_eq
  rw [eitherName, all_cons, all_singleton, all_cons, all_singleton, hempty]
  cases (e'.children.filter (·.hasName (.qualified space name))).isEmpty with
  | true => exact ⟨.plain name, by simp, rfl, rfl⟩
  | false => exact ⟨.qualified space name, by simp, rfl, rfl⟩

theorem hasLocalName_of_hasName {space name : Text} {n : Name} (hn : n ∈ eitherName space name)
    (h : e.hasName n = true) : e.hasLocalName name = true := by
  rcases List.mem_cons.mp hn with rfl | hn
  · exact (Bool.and_eq_true_iff.mp h).2
  · obtain rfl := List.mem_singleton.mp hn
    exact (Bool.and_eq_true_iff.mp h).2

/-- Nothing is found under a local name that no child has. -/
theorem all_eq_nil {space name : Text} (h : ∀ c ∈ e.children, c.hasLocalName name = false) :
    e.all (eitherName space name) = [] := by
  have hfilter : ∀ n ∈ eitherName space name, e.children.filter (·.hasName n) = [] := by
    intro n hn
    rw [List.filter_eq_nil_iff]
    intro c hc hname
    have hlocal := hasLocalName_of_hasName hn hname
    rw [h c hc] at hlocal
    cases hlocal
  rw [eitherName, all_cons, all_singleton, hfilter _ (by simp [eitherName]),
    hfilter _ (by simp [eitherName])]
  rfl

theorem childValue?_congr {ns : List Name} (h : e.all ns = e'.all ns) :
    e.childValue? ns = e'.childValue? ns := by
  rw [childValue?, childValue?, first?_eq_head?, first?_eq_head?, h]

/-- Two elements are equal but for children with some local names. -/
structure SameBut (names : List Text) (e e' : Element) : Prop where
  shell : e' = { e with children := e'.children }
  children : e.children.filter (fun c => !names.any c.hasLocalName) =
    e'.children.filter fun c => !names.any c.hasLocalName

section
variable {names : List Text} (h : SameBut names e e')
include h

theorem SameBut.hasName (n : Name) : e'.hasName n = e.hasName n := by
  rw [h.shell]
  rfl

theorem SameBut.attribute? (name : Text) : e'.attribute? name = e.attribute? name := by
  rw [h.shell]
  rfl

/-- What is kept of the children is kept of both. -/
theorem SameBut.filter_children {p : Element → Bool}
    (hp : ∀ c, p c = true → names.any c.hasLocalName = false) :
    e.children.filter p = e'.children.filter p := by
  have hboth (cs : List Element) :
      (cs.filter fun c => !names.any c.hasLocalName).filter p = cs.filter p := by
    rw [List.filter_filter]
    apply List.filter_congr
    intro c _
    cases hc : p c with
    | false => rfl
    | true => rw [hp c hc]; rfl
  rw [← hboth, h.children, hboth]

theorem SameBut.all {space name : Text} (hname : ∀ n ∈ names, Text.eqFold name n = false) :
    e.all (eitherName space name) = e'.all (eitherName space name) := by
  apply all_congr
  intro n hn
  apply h.filter_children
  intro c hc
  rw [List.any_eq_false]
  intro other hother hlocal
  have := Text.eqFold_iff.mp (hasLocalName_of_hasName hn hc)
  have hfold := hname other hother
  rw [← Bool.not_eq_true, Text.eqFold_iff, ← this, Text.eqFold_iff.mp hlocal] at hfold
  exact hfold rfl

end

end PascalSurvey.Xml.Element
