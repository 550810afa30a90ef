/-
PascalSurvey/Proofs/Path/Join.lean

Paths that go on with a name.  A name that a file can have (`IsName`) is one component and
spells it, so joining it to a path puts that component behind those of the path, however the
path ends (`components_join`).  Hence the path of an entry below a directory tells the names
that lead to the entry from there (`components_foldl_join`).
-/
import PascalSurvey.Path
import PascalSurvey.Proofs.Text.Bytes

namespace PascalSurvey.Path

open Ascii Text

/-- A name that a file or a directory can have. -/
def IsName (name : Text) : Prop :=
  name ≠ [] ∧ slash ∉ name ∧ name ≠ [dot] ∧ name ≠ [dot, dot]

instance (name : Text) : Decidable (IsName name) := inferInstanceAs (Decidable (_ ∧ _))

/-! ### Pieces between slashes -/

theorem splitWhere_ne_nil (p : UInt8 → Bool) (t : Text) : splitWhere p t ≠ [] := by
  fun_cases splitWhere p t <;> simp

theorem split_append (sep : UInt8) (x y : Text) :
    split sep (x ++ sep :: y) = split sep x ++ split sep y := by
  unfold split
  induction x with
  | nil => simp [splitWhere]
  | cons b x ih =>
    rw [List.cons_append, splitWhere, splitWhere, ih]
    split
    · rfl
    · rcases hx : splitWhere (· == sep) x with - | ⟨first, rest⟩
      · exact absurd hx (splitWhere_ne_nil _ x)
      · rfl

theorem split_of_not_mem {sep : UInt8} {x : Text} (h : sep ∉ x) : split sep x = [x] := by
  unfold split
  induction x with
  | nil => rfl
  | cons b x ih =>
    rw [List.mem_cons, not_or] at h
    rw [splitWhere, ih h.2, if_neg]
    simpa using Ne.symm h.1

/-- Splitting undoes joining. -/
theorem split_join {sep : UInt8} {xs : List Text} (hne : xs ≠ []) (h : ∀ x ∈ xs, sep ∉ x) :
    split sep (Text.join [sep] xs) = xs := by
  induction xs with
  | nil => exact absurd rfl hne
  | cons x xs ih =>
    have hx := split_of_not_mem (h x List.mem_cons_self)
    cases xs with
    | nil => rw [Text.join, List.intercalate_singleton, hx]
    | cons y ys =>
      have hrest := ih (List.cons_ne_nil y ys) fun z hz => h z (List.mem_cons_of_mem x hz)
      rw [Text.join, List.intercalate_cons_cons, List.append_assoc, List.singleton_append,
        split_append, hx, List.singleton_append]
      exact congrArg (x :: ·) hrest

theorem not_mem_of_mem_split {sep : UInt8} {t piece : Text} (h : piece ∈ split sep t) :
    sep ∉ piece := by
  unfold split at h
  induction t generalizing piece with
  | nil =>
    obtain rfl := List.mem_singleton.mp h
    exact List.not_mem_nil
  | cons b r ih =>
    rw [splitWhere] at h
    split at h
    · rcases List.mem_cons.mp h with rfl | h
      · exact List.not_mem_nil
      · exact ih h
    · next hb =>
      rcases hr : splitWhere (· == sep) r with - | ⟨first, rest⟩
      · exact absurd hr (splitWhere_ne_nil _ r)
      · rw [hr] at h ih
        rcases List.mem_cons.mp h with rfl | h
        · rw [List.mem_cons, not_or]
          exact ⟨fun heq => hb (by simp [heq]), ih List.mem_cons_self⟩
        · exact ih (List.mem_cons_of_mem _ h)

theorem piecesFrom_append (offset : Nat) (xs ys : List Text) :
    ∃ offset', piecesFrom offset (xs ++ ys) = piecesFrom offset xs ++ piecesFrom offset' ys := by
  induction xs generalizing offset with
  | nil => exact ⟨offset, rfl⟩
  | cons x xs ih =>
    obtain ⟨offset', h⟩ := ih (offset + x.length + 1)
    exact ⟨offset', by rw [List.cons_append, piecesFrom, piecesFrom, h, List.cons_append]⟩

/-! ### Components -/

/-- The components that pieces stand for, from the beginning of a path. -/
def componentsOf (pieces : List Text) : List Component :=
  (piecesFrom 0 pieces).filterMap fun (piece, stop) => componentOf? piece stop

theorem components_eq (p : Path) :
    components p = (if isAbsolute p then [.root] else []) ++ componentsOf (split slash p) := by
  have hbody : ((piecesFrom 0 (split slash p)).filterMap fun (piece, stop) =>
      (componentOf? piece stop).map (·, stop)).map (·.1) = componentsOf (split slash p) := by
    rw [componentsOf, List.map_filterMap]
    congr
    funext ⟨piece, stop⟩
    exact Option.map_map .. |>.trans (Option.map_id' ..)
  unfold components located
  dsimp only
  rw [← hbody]
  split <;> rfl

theorem componentOf?_of_isName {name : Text} (h : IsName name) (stop : Nat) :
    componentOf? name stop = some (.named name) := by
  obtain ⟨hnil, -, hdot, hdots⟩ := h
  rw [componentOf?, if_neg hnil, if_neg hdot, if_neg hdots]

/-- A piece that is a component wherever it stands is the last one as the last piece. -/
theorem componentsOf_concat (pieces : List Text) {piece : Text} {c : Component}
    (h : ∀ stop, componentOf? piece stop = some c) :
    componentsOf (pieces ++ [piece]) = componentsOf pieces ++ [c] := by
  obtain ⟨offset, happend⟩ := piecesFrom_append 0 pieces [piece]
  rw [componentsOf, happend, List.filterMap_append]
  simp [piecesFrom, h, componentsOf]

theorem eq_of_componentOf? {piece name : Text} {stop : Nat}
    (h : componentOf? piece stop = some (.named name)) :
    piece = name ∧ piece ≠ [] ∧ piece ≠ [dot] ∧ piece ≠ [dot, dot] := by
  revert h
  fun_cases componentOf? piece stop with
  | case5 hnil hdot hdots =>
    intro h
    exact ⟨Component.named.inj (Option.some.inj h), hnil, hdot, hdots⟩
  | _ => exact nofun

theorem mem_of_mem_piecesFrom {offset stop : Nat} {piece : Text} {pieces : List Text}
    (h : (piece, stop) ∈ piecesFrom offset pieces) : piece ∈ pieces := by
  induction pieces generalizing offset with
  | nil => cases h
  | cons first rest ih =>
    rcases List.mem_cons.mp h with heq | h
    · rw [(Prod.mk.inj heq).1]
      exact List.mem_cons_self
    · exact List.mem_cons_of_mem _ (ih h)

/-- Every named component of a path is a name. -/
theorem isName_of_mem_components {p : Path} {name : Text} (h : .named name ∈ components p) :
    IsName name := by
  have hbody : .named name ∈ componentsOf (split slash p) := by
    rw [components_eq] at h
    rcases List.mem_append.mp h with h | h
    · split at h
      · cases List.mem_singleton.mp h
      · cases h
    · exact h
  obtain ⟨⟨piece, stop⟩, hpiece, hname⟩ := List.mem_filterMap.mp hbody
  have hslash := not_mem_of_mem_split (mem_of_mem_piecesFrom hpiece)
  obtain ⟨rfl, hnil, hdot, hdots⟩ := eq_of_componentOf? hname
  exact ⟨hnil, hslash, hdot, hdots⟩

/-- An empty last piece is no component. -/
theorem componentsOf_empty (pieces : List Text) :
    componentsOf (pieces ++ [[]]) = componentsOf pieces := by
  obtain ⟨offset, happend⟩ := piecesFrom_append 0 pieces [[]]
  rw [componentsOf, happend, List.filterMap_append]
  simp [piecesFrom, componentOf?, componentsOf]

theorem isAbsolute_append {p : Path} (hp : p ≠ []) (q : Path) :
    isAbsolute (p ++ q) = isAbsolute p := by
  obtain ⟨b, r, rfl⟩ := List.exists_cons_of_ne_nil hp
  rfl

/-- Only the empty path has no components. -/
theorem components_ne_nil {p : Path} (hp : p ≠ []) : components p ≠ [] := by
  obtain ⟨b, r, rfl⟩ := List.exists_cons_of_ne_nil hp
  rw [components_eq]
  split
  · exact List.append_ne_nil_of_left_ne_nil (List.cons_ne_nil _ _) _
  · next hrelative =>
    -- the first piece is not empty, and at the beginning even a single dot is a component
    have hb : (b == slash) = false := by simpa [isAbsolute] using hrelative
    obtain ⟨first, rest, hsplit⟩ : ∃ first rest, split slash (b :: r) = (b :: first) :: rest := by
      rw [split, splitWhere, hb]
      cases splitWhere (· == slash) r <;> exact ⟨_, _, rfl⟩
    have hfirst : ∃ c, componentOf? (b :: first) (b :: first).length = some c := by
      by_cases hdot : b :: first = [dot]
      · exact ⟨.current, by rw [hdot]; rfl⟩
      · rw [componentOf?, if_neg (List.cons_ne_nil _ _), if_neg hdot]
        split <;> exact ⟨_, rfl⟩
    obtain ⟨c, hc⟩ := hfirst
    simp only [List.nil_append, componentsOf, hsplit, piecesFrom, List.filterMap_cons, Nat.zero_add,
      hc]
    exact List.cons_ne_nil _ _

/-! ### Joining -/

theorem join_eq {p : Path} {name : Text} (hp : p ≠ []) (h : slash ∉ name) :
    ∃ q, join p name = q ++ slash :: name ∧ (p = q ∨ p = q ++ [slash]) := by
  have hrelative : ¬isAbsolute name = true := by
    rw [isAbsolute, decide_eq_true_eq]
    intro hhead
    exact h (List.mem_of_mem_head? hhead)
  unfold join
  rw [if_neg hrelative]
  split
  · next hends =>
    obtain ⟨q, rfl⟩ := List.getLast?_eq_some_iff.mp (hends.resolve_left hp)
    exact ⟨q, by simp, .inr rfl⟩
  · exact ⟨p, rfl, .inl rfl⟩

/-- A name joined to a path is one more component. -/
theorem components_join {p : Path} {name : Text} (hp : p ≠ []) (h : IsName name) :
    components (join p name) = components p ++ [.named name] := by
  obtain ⟨q, hjoin, hq⟩ := join_eq hp h.2.1
  rw [hjoin, components_eq, components_eq, split_append, split_of_not_mem h.2.1,
    componentsOf_concat _ (componentOf?_of_isName h)]
  rcases hq with rfl | rfl
  · rw [isAbsolute_append hp, List.append_assoc]
  · have hsplit : split slash (q ++ [slash]) = split slash q ++ [[]] := split_append slash q []
    rw [hsplit, componentsOf_empty, ← isAbsolute_append hp name, List.append_assoc q,
      List.singleton_append, List.append_assoc]

theorem join_ne_nil {p : Path} {name : Text} (hp : p ≠ []) (h : slash ∉ name) :
    join p name ≠ [] := by
  obtain ⟨q, hjoin, -⟩ := join_eq hp h
  simp [hjoin]

theorem fileName?_join {p : Path} {name : Text} (hp : p ≠ []) (h : IsName name) :
    fileName? (join p name) = some name := by
  rw [fileName?, components_join hp h, List.getLast?_concat]

/-- Names joined one after the other are as many more components. -/
theorem components_foldl_join {p : Path} (hp : p ≠ []) {names : List Text}
    (h : ∀ name ∈ names, IsName name) :
    components (names.foldl join p) = components p ++ names.map .named := by
  induction names generalizing p with
  | nil => simp
  | cons name names ih =>
    have hname := h name List.mem_cons_self
    rw [List.foldl_cons, ih (join_ne_nil hp hname.2.1) fun n hn => h n (List.mem_cons_of_mem _ hn),
      components_join hp hname, List.map_cons, List.append_assoc, List.singleton_append]

/-! ### File names -/

/-- A file name with an extension is its stem, a dot and the extension. -/
theorem eq_of_splitName {name stem extension : Text}
    (h : splitName name = (stem, some extension)) : name = stem ++ dot :: extension := by
  unfold splitName at h
  split at h
  · cases h
  · next hcut =>
    obtain ⟨rfl, hextension⟩ := Prod.mk.inj h
    obtain rfl := Option.some.inj hextension
    exact cutLast?_eq_some hcut
  · cases h

end PascalSurvey.Path
