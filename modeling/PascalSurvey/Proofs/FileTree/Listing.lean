/-
PascalSurvey/Proofs/FileTree/Listing.lean

What depends on the order in which a system lists files.  Looking up a path does not, since it
follows names (`locate_reorder`), and of listing a directory and of walking it only the order
does (`list_reorder`, `perm_walk_reorder`).

In a proper tree a listed path is known from its file name in any letter case
(`Proper.eq_of_foldedName`), and a path found by a walk from its components
(`Proper.eq_of_components_walk`).  So whatever looks for one file in a listing finds the same
in every order (`find?_eq_of_perm`), and sorting gives the same list.
-/
import PascalSurvey.FileTree
import PascalSurvey.Proofs.Path.Names

namespace PascalSurvey.FileTree

open PascalSurvey.Path

/-- The same files and directories, listed in another order. -/
def reorder (t : FileTree) (o : ListingOrder) : FileTree := { t with order := o }

/-- Two lists of names lead into one directory, to names that are read alike but for their letter
case.  All that looks for a name reads it first, so what is no character in a name is U+FFFD. -/
def SameButCase (a b : List Text) : Prop :=
  a.dropLast = b.dropLast ∧ a.getLast?.map folded = b.getLast?.map folded

instance (a b : List Text) : Decidable (SameButCase a b) := inferInstanceAs (Decidable (_ ∧ _))

/-- The names in a tree are such as files can have. -/
structure Named (t : FileTree) : Prop where
  entries : ∀ e ∈ t.entries, ∀ name ∈ e.1, IsName name
  home : ∀ name ∈ t.home, IsName name

/-- The names in a tree are such as files can have, and no directory holds two that differ only in
letter case. -/
structure Proper (t : FileTree) : Prop where
  named : t.Named
  apart : ∀ a ∈ t.entries, ∀ b ∈ t.entries, SameButCase a.1 b.1 → a.1 = b.1

variable {t : FileTree}

/-! ### Names

Every tree that is built is named, so of a proper tree only that its names are apart is a
condition. -/

theorem isName_of_mem_namesOf {p : Path} {name : Text} (h : name ∈ namesOf p) : IsName name := by
  obtain ⟨c, hc, hname⟩ := List.mem_filterMap.mp h
  cases c with
  | named n =>
    obtain rfl := Option.some.inj hname
    exact isName_of_mem_components hc
  | root | current | parent => cases hname

theorem named_empty : empty.Named := ⟨by decide +kernel, by decide +kernel⟩

theorem Named.put (ht : t.Named) {names : List Text} (hnames : ∀ name ∈ names, IsName name)
    (node : Node) : (t.put names node).Named where
  entries e he := by
    rcases List.mem_append.mp he with he | he
    · exact ht.entries e (List.mem_filter.mp he).1
    · obtain rfl := List.mem_singleton.mp he
      exact hnames
  home := ht.home

theorem Named.makeDirectory (ht : t.Named) {names : List Text}
    (hnames : ∀ name ∈ names, IsName name) : (t.makeDirectory names).Named := by
  unfold FileTree.makeDirectory
  split
  · exact ht
  · exact ht.put hnames .directory

theorem Named.makeParents (ht : t.Named) {names : List Text}
    (hnames : ∀ name ∈ names, IsName name) : (t.makeParents names).Named := by
  unfold FileTree.makeParents
  induction List.range names.length generalizing t with
  | nil => exact ht
  | cons n ns ih => exact ih (ht.makeDirectory fun name h => hnames name (List.mem_of_mem_take h))

theorem Named.isName_of_mem_namesAt (ht : t.Named) {p : Path} :
    ∀ name ∈ t.namesAt p, IsName name := by
  intro name hname
  unfold namesAt at hname
  split at hname
  · exact isName_of_mem_namesOf hname
  · rcases List.mem_append.mp hname with h | h
    · exact ht.home name h
    · exact isName_of_mem_namesOf h

theorem Named.addFile (ht : t.Named) (p : Path) (bytes : List UInt8) : (t.addFile p bytes).Named :=
  (ht.makeParents ht.isName_of_mem_namesAt).put ht.isName_of_mem_namesAt _

theorem Named.addDirectory (ht : t.Named) (p : Path) : (t.addDirectory p).Named :=
  (ht.makeParents ht.isName_of_mem_namesAt).makeDirectory ht.isName_of_mem_namesAt

section Lookup

variable (t : FileTree) (o : ListingOrder)

theorem follow_reorder (place : List Text) (cs : List Component) :
    (t.reorder o).follow place cs = t.follow place cs := by
  induction cs generalizing place with
  | nil => rfl
  | cons c rest ih =>
    unfold follow
    simp only [ih]
    rfl

theorem locate_reorder : (t.reorder o).locate = t.locate := by
  funext p
  unfold locate placeOf
  simp only [follow_reorder]
  rfl

theorem exists?_reorder : (t.reorder o).exists? = t.exists? := by
  funext p
  rw [exists?, locate_reorder, exists?]

theorem isFile_reorder : (t.reorder o).isFile = t.isFile := by
  funext p
  rw [isFile, locate_reorder, isFile]

end Lookup

/-- A path that leads somewhere is not empty. -/
theorem ne_nil_of_locate {p : Path} {place : List Text} {node : Node}
    (h : t.locate p = .ok (place, node)) : p ≠ [] := by
  rintro rfl
  cases h

/-! ### Listing a directory -/

/-- The paths that a directory has to list. -/
def listed (t : FileTree) (p : Path) (place : List Text) : List Path :=
  t.entries.filterMap fun (names, _) => (childName? place names).map (join p)

theorem list_eq_ok_iff {p : Path} {entries : List Path} :
    t.list p = .ok entries ↔
      ∃ place, t.locate p = .ok (place, .directory) ∧
        entries = t.order.listing p (t.listed p place) := by
  unfold list
  split
  · next place hlocate =>
    constructor
    · intro h
      exact ⟨place, hlocate, (Except.ok.inj h).symm⟩
    · rintro ⟨place', hlocate', rfl⟩
      rw [hlocate] at hlocate'
      cases hlocate'
      rfl
  · next hlocate => simp [hlocate]
  · next hlocate => simp [hlocate]

/-- Listing fails in any order, or gives the same paths. -/
theorem list_reorder (t : FileTree) (o : ListingOrder) (p : Path) :
    (∃ e, t.list p = .error e ∧ (t.reorder o).list p = .error e) ∨
      ∃ entries entries', t.list p = .ok entries ∧ (t.reorder o).list p = .ok entries' ∧
        entries.Perm entries' := by
  cases h : t.list p with
  | error e =>
    refine .inl ⟨e, rfl, ?_⟩
    unfold list at h ⊢
    rw [locate_reorder]
    split at h
    · cases h
    · exact h
    · exact h
  | ok entries =>
    obtain ⟨place, hlocate, rfl⟩ := list_eq_ok_iff.mp h
    refine .inr ⟨_, o.listing p (t.listed p place), rfl, ?_, ?_⟩
    · exact list_eq_ok_iff.mpr ⟨place, by rw [locate_reorder, hlocate], rfl⟩
    · exact (t.order.listing_perm _ _).trans (o.listing_perm _ _).symm

theorem childName?_eq_some {place names : List Text} {name : Text}
    (h : childName? place names = some name) : names = place ++ [name] := by
  unfold childName? at h
  split at h
  · next hplace =>
    obtain ⟨ys, rfl⟩ := List.getLast?_eq_some_iff.mp h
    rw [← hplace, List.dropLast_concat]
  · cases h

/-- A listed path is that of the directory with the name of an entry. -/
theorem exists_of_mem_list (ht : t.Named) {p q : Path} {entries : List Path}
    (h : t.list p = .ok entries) (hq : q ∈ entries) :
    ∃ place name node, t.locate p = .ok (place, .directory) ∧ (place ++ [name], node) ∈ t.entries ∧
      q = join p name ∧ fileName? q = some name := by
  obtain ⟨place, hlocate, rfl⟩ := list_eq_ok_iff.mp h
  have hmem := (t.order.listing_perm _ _).mem_iff.mp hq
  obtain ⟨⟨names, node⟩, he, hname⟩ := List.mem_filterMap.mp hmem
  obtain ⟨name, hchild, rfl⟩ := Option.map_eq_some_iff.mp hname
  obtain rfl := childName?_eq_some hchild
  exact ⟨place, name, node, hlocate, he, rfl,
    fileName?_join (ne_nil_of_locate hlocate) (ht.entries _ he name (by simp))⟩

/-- What is read of the file name of a path where letter case does not count. -/
def foldedName (p : Path) : Option Text := (fileName? p).map folded

theorem foldedName_eq (p : Path) : foldedName p = (nameText? p).map Text.toLower := by
  rw [nameText?, Option.map_map]
  rfl

/-- In a listing a path is known from its file name in any letter case. -/
theorem Proper.eq_of_foldedName (ht : t.Proper) {p a b : Path} {entries : List Path}
    (h : t.list p = .ok entries) (ha : a ∈ entries) (hb : b ∈ entries)
    (hname : foldedName a = foldedName b) : a = b := by
  obtain ⟨place, m, node, hlocate, hm, rfl, hfa⟩ := exists_of_mem_list ht.named h ha
  obtain ⟨place', n, node', hlocate', hn, rfl, hfb⟩ := exists_of_mem_list ht.named h hb
  rw [hlocate] at hlocate'
  cases hlocate'
  rw [foldedName, foldedName, hfa, hfb] at hname
  have hsame := ht.apart _ hm _ hn ⟨by simp, by simpa using hname⟩
  rw [List.append_cancel_left hsame |> List.singleton_inj.mp]

/-- So it is known from its components. -/
theorem Proper.eq_of_components_list (ht : t.Proper) {p a b : Path} {entries : List Path}
    (h : t.list p = .ok entries) (ha : a ∈ entries) (hb : b ∈ entries)
    (hcomponents : components a = components b) : a = b :=
  ht.eq_of_foldedName h ha hb (by rw [foldedName, foldedName, fileName?, fileName?, hcomponents])

/-! ### Walking a directory -/

theorem perm_walk_reorder (t : FileTree) (o : ListingOrder) (p : Path) :
    (t.walk p).Perm ((t.reorder o).walk p) := by
  unfold walk
  rw [locate_reorder]
  split
  · exact (t.order.walking_perm _ _).trans (o.walking_perm _ _).symm
  · exact .refl _
  · exact .refl _

/-- A path found by a walk is that of the directory with the names below it joined one after the
other. -/
theorem exists_of_mem_walk (ht : t.Proper) {p q : Path} (hq : q ∈ t.walk p) :
    p ≠ [] ∧ ∃ below : List Text, (∀ name ∈ below, IsName name) ∧ q = below.foldl join p := by
  unfold walk at hq
  split at hq
  · next place hlocate =>
    have hmem := (t.order.walking_perm _ _).mem_iff.mp hq
    obtain ⟨⟨names, node⟩, he, hnode⟩ := List.mem_filterMap.mp hmem
    cases node with
    | directory => cases hnode
    | file bytes =>
      obtain ⟨below, hbelow, rfl⟩ := Option.map_eq_some_iff.mp hnode
      refine ⟨ne_nil_of_locate hlocate, below, ?_, rfl⟩
      intro name hname
      unfold namesBelow? at hbelow
      split at hbelow
      · obtain rfl := Option.some.inj hbelow
        exact ht.named.entries _ he name (List.mem_of_mem_drop hname)
      · cases hbelow
  · next hlocate => exact ⟨ne_nil_of_locate hlocate, [], nofun, List.mem_singleton.mp hq⟩
  · cases hq

/-- A path found by a walk is known from its components. -/
theorem Proper.eq_of_components_walk (ht : t.Proper) {p a b : Path} (ha : a ∈ t.walk p)
    (hb : b ∈ t.walk p) (hcomponents : components a = components b) : a = b := by
  obtain ⟨hp, ms, hms, rfl⟩ := exists_of_mem_walk ht ha
  obtain ⟨-, ns, hns, rfl⟩ := exists_of_mem_walk ht hb
  rw [components_foldl_join hp hms, components_foldl_join hp hns, List.append_cancel_left_eq]
    at hcomponents
  rw [(List.map_inj_right fun _ _ => Component.named.inj).mp hcomponents]

/-! ### Looking for one path -/

/-- What only one element can satisfy is found in every order. -/
theorem find?_eq_of_perm {α : Type} {f : α → Bool} {l l' : List α} (h : l.Perm l')
    (hone : ∀ a ∈ l, ∀ b ∈ l, f a = true → f b = true → a = b) : l.find? f = l'.find? f := by
  cases hl : l.find? f with
  | none =>
    refine (List.find?_eq_none.mpr fun a ha => ?_).symm
    exact List.find?_eq_none.mp hl a (h.mem_iff.mpr ha)
  | some a =>
    have hfa := List.find?_some hl
    have ha := List.mem_of_find?_eq_some hl
    cases hl' : l'.find? f with
    | none => exact absurd hfa (List.find?_eq_none.mp hl' a (h.mem_iff.mp ha))
    | some b =>
      have hb := h.mem_iff.mpr (List.mem_of_find?_eq_some hl')
      rw [hone a ha b hb hfa (List.find?_some hl')]

end PascalSurvey.FileTree
