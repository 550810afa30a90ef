/-
PascalSurvey/Proofs/Xml/Space.lean

Namespaces and lookups.  A lookup for a name in a namespace or, failing that, for the plain name
finds the same children in a tree whose elements are all in the namespace (`InSpace`) and in
that tree without namespaces (`withoutSpaces`).  They are the children that have the local name:
in the first tree the qualified name finds them and the plain one would find nothing; in the
second it is the other way round (`all_of_inSpace`, `all_withoutSpaces`).
-/
import PascalSurvey.Xml.Element

namespace PascalSurvey.Xml.Element

/-- All elements of a tree are in a namespace. -/
inductive InSpace (space : Text) : Element → Prop
  | mk {e : Element} : e.space = some space → (∀ c ∈ e.children, InSpace space c) → InSpace space e

/-- A tree with every namespace removed. -/
def withoutSpaces (e : Element) : Element :=
  { e with space := none, children := e.children.map withoutSpaces }
termination_by e
decreasing_by
  next hc =>
  cases e
  have := List.sizeOf_lt_of_mem hc
  simp only [mk.sizeOf_spec] at this ⊢
  omega

variable {space : Text} {e c : Element}

theorem inSpace_mk {s : Option Text} {name text : Text} {attributes : List (Text × Text)}
    {children : List Element} :
    InSpace space ⟨s, name, attributes, text, children⟩ ↔
      s = some space ∧ ∀ c ∈ children, c.InSpace space := by
  constructor
  · rintro ⟨hspace, hchildren⟩
    exact ⟨hspace, hchildren⟩
  · rintro ⟨hspace, hchildren⟩
    exact .mk hspace hchildren

theorem InSpace.space_eq (h : e.InSpace space) : e.space = some space := by
  cases h
  assumption

theorem InSpace.of_mem (h : e.InSpace space) (hc : c ∈ e.children) : c.InSpace space := by
  cases h with
  | mk _ hchildren => exact hchildren c hc

/-! ### What removing namespaces keeps -/

@[simp] theorem space_withoutSpaces (e : Element) : e.withoutSpaces.space = none := by
  rw [withoutSpaces]

@[simp] theorem name_withoutSpaces (e : Element) : e.withoutSpaces.name = e.name := by
  rw [withoutSpaces]

@[simp] theorem text_withoutSpaces (e : Element) : e.withoutSpaces.text = e.text := by
  rw [withoutSpaces]

@[simp] theorem children_withoutSpaces (e : Element) :
    e.withoutSpaces.children = e.children.map withoutSpaces := by
  rw [withoutSpaces]

@[simp] theorem attribute?_withoutSpaces (e : Element) (name : Text) :
    e.withoutSpaces.attribute? name = e.attribute? name := by
  rw [withoutSpaces, attribute?, attribute?]

@[simp] theorem value_withoutSpaces (e : Element) : e.withoutSpaces.value = e.value := by
  rw [value, value, text_withoutSpaces]

/-! ### Names -/

/-- A name in a namespace, then the plain name. -/
def eitherName (space name : Text) : List Name := [.qualified space name, .plain name]

/-- Whether an element has a local name, whatever its namespace. -/
def hasLocalName (e : Element) (name : Text) : Bool := Text.eqFold e.name name

theorem hasName_qualified (h : e.InSpace space) (name : Text) :
    e.hasName (.qualified space name) = e.hasLocalName name := by
  simp [hasName, hasLocalName, h.space_eq]

theorem hasName_plain (h : e.InSpace space) (name : Text) : e.hasName (.plain name) = false := by
  simp [hasName, h.space_eq]

theorem hasName_qualified_withoutSpaces (e : Element) (space name : Text) :
    e.withoutSpaces.hasName (.qualified space name) = false := by
  simp [hasName]

theorem hasName_plain_withoutSpaces (e : Element) (name : Text) :
    e.withoutSpaces.hasName (.plain name) = e.hasLocalName name := by
  simp [hasName, hasLocalName]

/-! ### Lookups -/

theorem all_cons (e : Element) (n : Name) (ns : List Name) :
    e.all (n :: ns) =
      if (e.children.filter (·.hasName n)).isEmpty then e.all ns
      else e.children.filter (·.hasName n) := by
  rw [all, List.map_cons, List.find?_cons]
  cases e.children.filter (·.hasName n) <;> rfl

/-- The first element found is the first of all that are found. -/
theorem first?_eq_head? (e : Element) (ns : List Name) : e.first? ns = (e.all ns).head? := by
  induction ns with
  | nil => rfl
  | cons n ns ih =>
    rw [all_cons, first?, List.findSome?_cons, ← List.head?_filter]
    cases e.children.filter (·.hasName n) with
    | nil => exact ih
    | cons c cs => rfl

theorem all_of_inSpace (h : e.InSpace space) (name : Text) :
    e.all (eitherName space name) = e.children.filter (·.hasLocalName name) := by
  have hqualified : e.children.filter (·.hasName (.qualified space name)) =
      e.children.filter (·.hasLocalName name) :=
    List.filter_congr fun c hc => hasName_qualified (h.of_mem hc) name
  have hplain : e.children.filter (·.hasName (.plain name)) = [] :=
    List.filter_eq_nil_iff.mpr fun c hc => by simp [hasName_plain (h.of_mem hc)]
  rw [eitherName, all_cons, all_cons, hqualified, hplain]
  cases e.children.filter (·.hasLocalName name) <;> rfl

theorem all_withoutSpaces (e : Element) (space name : Text) :
    e.withoutSpaces.all (eitherName space name) =
      (e.children.filter (·.hasLocalName name)).map withoutSpaces := by
  rw [eitherName, all_cons, all_cons]
  simp only [children_withoutSpaces, List.filter_map, Function.comp_def,
    hasName_qualified_withoutSpaces, hasName_plain_withoutSpaces]
  cases e.children.filter (·.hasLocalName name) <;> simp [all]

/-- **A lookup finds the same children without the namespaces.** -/
theorem InSpace.all_eq (h : e.InSpace space) (name : Text) :
    e.withoutSpaces.all (eitherName space name) =
      (e.all (eitherName space name)).map withoutSpaces := by
  rw [all_withoutSpaces, all_of_inSpace h]

theorem InSpace.childValue?_eq (h : e.InSpace space) (name : Text) :
    e.withoutSpaces.childValue? (eitherName space name) =
      e.childValue? (eitherName space name) := by
  rw [childValue?, childValue?, first?_eq_head?, first?_eq_head?, h.all_eq, List.head?_map,
    Option.map_map]
  congr 2
  funext c
  exact value_withoutSpaces c

/-- What a lookup finds is in the namespace too. -/
theorem InSpace.of_mem_all (h : e.InSpace space) {name : Text}
    (hc : c ∈ e.all (eitherName space name)) : c.InSpace space := by
  rw [all_of_inSpace h] at hc
  exact h.of_mem (List.mem_filter.mp hc).1

end PascalSurvey.Xml.Element
