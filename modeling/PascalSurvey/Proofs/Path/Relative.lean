/-
PascalSurvey/Proofs/Path/Relative.lean

Relative paths that go on, and the way back.  Joined to a path, a relative path puts its own
components behind those of the path (`components_join_of_relative`); a single dot at its
beginning, which is a component only where a path begins, gets lost on the way
(`components_of_relative`).  The parent of a path has all components but the last
(`components_parent?`).  A dot in front changes no more than how the directory is spelled
(`fileName?_join_here`, `parent?_join_here`).
-/
import PascalSurvey.Proofs.Path.Join

namespace PascalSurvey.Path

open Ascii Text

/-! ### Going on -/

/-- The components of a relative path behind another path. -/
def inner (x : Path) : List Component := (split slash x).filterMap (componentOf? · 0)

/-- Only the piece that ends at offset 1 is read differently. -/
theorem componentOf?_eq_inner {piece : Text} {stop : Nat} (h : piece = [dot] → stop ≠ 1) :
    componentOf? piece stop = componentOf? piece 0 := by
  unfold componentOf?
  split
  · rfl
  · split
    · next hdot => rw [if_neg (h hdot), if_neg Nat.zero_ne_one]
    · rfl

theorem filterMap_piecesFrom {offset : Nat} (hoffset : 0 < offset) (pieces : List Text) :
    (piecesFrom offset pieces).filterMap (fun (piece, stop) => componentOf? piece stop) =
      pieces.filterMap (componentOf? · 0) := by
  induction pieces generalizing offset with
  | nil => rfl
  | cons piece rest ih =>
    have hpiece : componentOf? piece (offset + piece.length) = componentOf? piece 0 := by
      refine componentOf?_eq_inner ?_
      rintro rfl
      rw [List.length_singleton]
      omega
    rw [piecesFrom, List.filterMap_cons, List.filterMap_cons, ih (by omega)]
    dsimp only
    rw [hpiece]

theorem piecesFrom_append_pos {xs : List Text} (hxs : xs ≠ []) (offset : Nat) (ys : List Text) :
    ∃ offset', 0 < offset' ∧
      piecesFrom offset (xs ++ ys) = piecesFrom offset xs ++ piecesFrom offset' ys := by
  obtain ⟨x, rest, rfl⟩ := List.exists_cons_of_ne_nil hxs
  induction rest generalizing x offset with
  | nil => exact ⟨offset + x.length + 1, by omega, rfl⟩
  | cons y rest ih =>
    obtain ⟨offset', hpos, h⟩ := ih (offset + x.length + 1) y (List.cons_ne_nil y rest)
    refine ⟨offset', hpos, ?_⟩
    rw [List.cons_append, piecesFrom, h]
    rfl

theorem componentsOf_append {xs : List Text} (hxs : xs ≠ []) (ys : List Text) :
    componentsOf (xs ++ ys) = componentsOf xs ++ ys.filterMap (componentOf? · 0) := by
  obtain ⟨offset, hpos, happend⟩ := piecesFrom_append_pos hxs 0 ys
  rw [componentsOf, happend, List.filterMap_append, filterMap_piecesFrom hpos]
  rfl

theorem join_eq_of_relative {p x : Path} (hp : p ≠ []) (hx : isAbsolute x = false) :
    ∃ q, join p x = q ++ slash :: x ∧ (p = q ∨ p = q ++ [slash]) := by
  unfold join
  rw [hx, if_neg Bool.false_ne_true]
  split
  · next hends =>
    obtain ⟨q, rfl⟩ := List.getLast?_eq_some_iff.mp (hends.resolve_left hp)
    exact ⟨q, by simp, .inr rfl⟩
  · exact ⟨p, rfl, .inl rfl⟩

/-- What goes on from a path is absolute if that is. -/
theorem isAbsolute_join {p x : Path} (hp : p ≠ []) (hx : isAbsolute x = false) :
    isAbsolute (join p x) = isAbsolute p := by
  obtain ⟨q, hjoin, rfl | rfl⟩ := join_eq_of_relative hp hx
  · rw [hjoin, isAbsolute_append hp]
  · rw [hjoin, ← isAbsolute_append hp x, List.append_assoc, List.singleton_append]

/-- **A relative path puts its components behind those of the path that it goes on.** -/
theorem components_join_of_relative {p x : Path} (hp : p ≠ []) (hx : isAbsolute x = false) :
    components (join p x) = components p ++ inner x := by
  obtain ⟨q, hjoin, hq⟩ := join_eq_of_relative hp hx
  have hne : split slash q ≠ [] := splitWhere_ne_nil _ q
  rw [hjoin, components_eq, components_eq, split_append, componentsOf_append hne,
    ← List.append_assoc]
  rcases hq with rfl | rfl
  · rw [isAbsolute_append hp]
    rfl
  · have hsplit : split slash (q ++ [slash]) = split slash q ++ [[]] := split_append slash q []
    rw [hsplit, componentsOf_empty, ← isAbsolute_append hp x, List.append_assoc q,
      List.singleton_append]
    rfl

/-- By itself a relative path has these components as well, perhaps behind a dot. -/
theorem components_of_relative {x : Path} (hx : isAbsolute x = false) :
    components x = inner x ∨ components x = .current :: inner x := by
  obtain ⟨first, rest, hsplit⟩ := List.exists_cons_of_ne_nil (splitWhere_ne_nil (· == slash) x)
  have hrest := @filterMap_piecesFrom (0 + first.length + 1) (by omega) rest
  rw [components_eq, hx, if_neg Bool.false_ne_true, List.nil_append, componentsOf, inner, split,
    hsplit, piecesFrom, List.filterMap_cons, List.filterMap_cons, hrest]
  by_cases hdot : first = [dot]
  · rw [hdot]
    exact .inr rfl
  · refine .inl ?_
    dsimp only
    rw [componentOf?_eq_inner fun h => absurd h hdot]

theorem join_of_isAbsolute {x : Path} (hx : isAbsolute x = true) (p : Path) : join p x = x :=
  if_pos hx

theorem join_nil (x : Path) : join [] x = x := by
  unfold join
  split
  · rfl
  · rw [if_pos (.inl rfl), List.nil_append]

/-! ### The way back -/

/-- A text has no separator, or it is cut at the first one. -/
theorem split_cases (sep : UInt8) (t : Text) :
    split sep t = [t] ∨
      ∃ x y, sep ∉ x ∧ t = x ++ sep :: y ∧ split sep t = x :: split sep y := by
  by_cases hmem : sep ∈ t
  · obtain ⟨x, y, rfl, hx⟩ := List.eq_append_cons_of_mem hmem
    refine .inr ⟨x, y, hx, rfl, ?_⟩
    rw [split_append, split_of_not_mem hx, List.singleton_append]
  · exact .inl (split_of_not_mem hmem)

/-- A path that is cut off where a piece ends has the pieces up to there. -/
theorem piecesFrom_take {p : Path} {offset stop : Nat} {piece : Text} {before after : List (Text × Nat)}
    (h : piecesFrom offset (split slash p) = before ++ (piece, stop) :: after) :
    offset + piece.length ≤ stop ∧
      piecesFrom offset (split slash (p.take (stop - offset))) = before ++ [(piece, stop)] := by
  induction before generalizing p offset with
  | nil =>
    rcases split_cases slash p with hsplit | ⟨x, y, hx, rfl, hsplit⟩
    all_goals
      rw [hsplit, piecesFrom, List.nil_append] at h
      obtain ⟨rfl, rfl⟩ := Prod.mk.inj (List.cons.inj h).1
      refine ⟨Nat.le_refl _, ?_⟩
      rw [Nat.add_sub_cancel_left]
    · rw [List.take_length, hsplit]
      rfl
    · rw [List.take_left, split_of_not_mem hx]
      rfl
  | cons head before ih =>
    rcases split_cases slash p with hsplit | ⟨x, y, hx, rfl, hsplit⟩
    · rw [hsplit] at h
      simpa [piecesFrom] using (List.cons.inj h).2
    · rw [hsplit, piecesFrom, List.cons_append] at h
      obtain ⟨rfl, htail⟩ := List.cons.inj h
      obtain ⟨hle, hpieces⟩ := ih htail
      have hlength : stop - offset = x.length + (stop - (offset + x.length + 1) + 1) := by omega
      refine ⟨by omega, ?_⟩
      rw [hlength, List.take_length_add_append, List.take_succ_cons, split_append,
        split_of_not_mem hx, List.singleton_append, piecesFrom, hpieces, List.cons_append]

/-- The components behind the root. -/
def body (p : Path) : List (Component × Nat) :=
  (piecesFrom 0 (split slash p)).filterMap fun (piece, stop) => (componentOf? piece stop).map (·, stop)

theorem located_eq (p : Path) :
    located p = (if isAbsolute p then [(.root, 1)] else []) ++ body p := by
  unfold located
  split <;> rfl

theorem body_take {p : Path} {c : Component} {stop : Nat} {before after : List (Component × Nat)}
    (h : body p = before ++ (c, stop) :: after) :
    0 < stop ∧ body (p.take stop) = before ++ [(c, stop)] := by
  obtain ⟨pieces, rest, hall, hbefore, hrest⟩ := List.filterMap_eq_append_iff.mp h
  obtain ⟨blank, ⟨piece, stop'⟩, rest', rfl, hblank, hpiece, -⟩ := List.filterMap_eq_cons_iff.mp hrest
  obtain ⟨c', hc, heq⟩ := Option.map_eq_some_iff.mp hpiece
  obtain ⟨rfl, rfl⟩ := Prod.mk.inj heq
  rw [← List.append_assoc] at hall
  obtain ⟨hle, htake⟩ := piecesFrom_take hall
  have hne : piece ≠ [] := by
    rintro rfl
    cases hc
  have hpos := List.length_pos_iff.mpr hne
  refine ⟨by omega, ?_⟩
  rw [Nat.sub_zero] at htake
  rw [body, htake, List.filterMap_append, List.filterMap_append, hbefore,
    List.filterMap_eq_nil_iff.mpr hblank, List.append_nil, List.filterMap_cons, hpiece,
    List.filterMap_nil]

theorem isAbsolute_take {p : Path} {stop : Nat} (hstop : 0 < stop) :
    isAbsolute (p.take stop) = isAbsolute p := by
  obtain ⟨n, rfl⟩ := Nat.exists_eq_succ_of_ne_zero (Nat.ne_of_gt hstop)
  cases p <;> rfl

/-- A path that is cut off where a component ends has the components up to there. -/
theorem located_take {p : Path} {c : Component} {stop : Nat} {before after : List (Component × Nat)}
    (h : located p = before ++ (c, stop) :: after) : located (p.take stop) = before ++ [(c, stop)] := by
  rw [located_eq] at h
  cases habs : isAbsolute p with
  | false =>
    rw [habs, if_neg Bool.false_ne_true, List.nil_append] at h
    obtain ⟨hstop, hbody⟩ := body_take h
    rw [located_eq, isAbsolute_take hstop, habs, if_neg Bool.false_ne_true, List.nil_append, hbody]
  | true =>
    rw [habs, if_pos rfl] at h
    cases before with
    | nil =>
      -- what is left is the root alone
      obtain ⟨rfl, rfl⟩ := Prod.mk.inj (List.cons.inj h).1
      obtain ⟨r, rfl⟩ : ∃ r, p = slash :: r := by
        cases p with
        | nil => cases habs
        | cons b r => exact ⟨r, by simpa [isAbsolute] using habs⟩
      rfl
    | cons first before =>
      obtain ⟨rfl, htail⟩ := List.cons.inj h
      obtain ⟨hstop, hbody⟩ := body_take htail
      rw [located_eq, isAbsolute_take hstop, habs, if_pos rfl, hbody]
      rfl

/-- **The parent of a path has all components but the last.** -/
theorem components_parent? {p dir : Path} (h : parent? p = some dir) :
    components dir = (components p).dropLast := by
  unfold parent? at h
  split at h
  · cases h
  · cases h
  · next last _ hrev =>
    obtain rfl := Option.some.inj h
    have hlocated : located p = [last] := List.reverse_eq_cons_iff.mp hrev
    rw [components, components, hlocated]
    rfl
  · next last c stop before _ hrev =>
    obtain rfl := Option.some.inj h
    have hlocated : located p = before.reverse ++ (c, stop) :: [last] := by
      rw [← List.reverse_reverse (located p), hrev]
      simp
    rw [components, components, located_take hlocated, hlocated]
    simp

theorem ne_root_of_mem_body {p : Path} {c : Component} {stop : Nat} (h : (c, stop) ∈ body p) :
    c ≠ .root := by
  obtain ⟨⟨piece, stop'⟩, -, hpiece⟩ := List.mem_filterMap.mp h
  obtain ⟨c', hc, heq⟩ := Option.map_eq_some_iff.mp hpiece
  obtain ⟨rfl, rfl⟩ := Prod.mk.inj heq
  rintro rfl
  unfold componentOf? at hc
  split at hc
  · cases hc
  · split at hc
    · split at hc <;> cases hc
    · split at hc <;> cases hc

theorem root_mem_components {p : Path} : .root ∈ components p ↔ isAbsolute p = true := by
  rw [components, located_eq, List.map_append, List.mem_append]
  constructor
  · rintro (h | h)
    · split at h
      · assumption
      · cases h
    · obtain ⟨⟨c, stop⟩, hmem, hc⟩ := List.mem_map.mp h
      exact absurd hc (ne_root_of_mem_body hmem)
  · intro h
    exact .inl (by simp [h])

theorem root_notMem_components {p : Path} : .root ∉ components p ↔ isAbsolute p = false := by
  rw [root_mem_components, Bool.not_eq_true]

/-- Whether a path is absolute is known from its components. -/
theorem isAbsolute_congr {p q : Path} (h : components p = components q) :
    isAbsolute p = isAbsolute q :=
  Bool.eq_iff_iff.mpr (by rw [← root_mem_components, h, root_mem_components])

/-- A path without a parent has no components but the root. -/
theorem components_of_parent?_none {p : Path} (hp : p ≠ []) (h : parent? p = none) :
    components p = [.root] := by
  unfold parent? at h
  split at h
  · next hrev =>
    refine absurd ?_ (components_ne_nil hp)
    rw [components, List.reverse_eq_nil_iff.mp hrev]
    rfl
  · next stop rest hrev =>
    have hlocated : located p = rest.reverse ++ [(.root, stop)] := List.reverse_eq_cons_iff.mp hrev
    rcases List.eq_nil_or_concat (body p) with hbody | ⟨init, last, hbody⟩
    · rw [located_eq, hbody, List.append_nil] at hlocated
      rw [components, located_eq, hbody, List.append_nil]
      split
      · rfl
      · next habs =>
        rw [if_neg habs] at hlocated
        exact absurd hlocated.symm (List.concat_ne_nil _ _)
    · -- a component behind the root would be the last one
      have hsame : rest.reverse ++ [(Component.root, stop)] =
          ((if isAbsolute p then [(.root, 1)] else []) ++ init) ++ [last] := by
        rw [← hlocated, located_eq, hbody, List.concat_eq_append, List.append_assoc]
      obtain rfl := List.singleton_inj.mp (List.append_inj' hsame rfl).2
      have hlast : (.root, stop) ∈ body p := by
        rw [hbody]
        simp
      exact absurd rfl (ne_root_of_mem_body hlast)
  · cases h
  · cases h

/-- So the empty path may stand for its parent. -/
theorem components_getD_parent? (p : Path) :
    components ((parent? p).getD []) = (components p).dropLast := by
  cases h : parent? p with
  | some dir => exact components_parent? h
  | none =>
    by_cases hp : p = []
    · rw [hp]
      rfl
    · rw [components_of_parent?_none hp h]
      rfl

/-! ### Names in a directory -/

theorem isAbsolute_of_isName {name : Text} (h : IsName name) : isAbsolute name = false := by
  rw [isAbsolute, decide_eq_false_iff_not]
  exact fun hhead => h.2.1 (List.mem_of_mem_head? hhead)

theorem components_of_isName {name : Text} (h : IsName name) : components name = [.named name] := by
  rw [components_eq, isAbsolute_of_isName h, if_neg Bool.false_ne_true, split_of_not_mem h.2.1]
  exact componentsOf_concat [] (componentOf?_of_isName h)

theorem inner_of_isName {name : Text} (h : IsName name) : inner name = [.named name] := by
  rw [inner, split_of_not_mem h.2.1, List.filterMap_cons, componentOf?_of_isName h,
    List.filterMap_nil]

theorem fileName?_of_isName {name : Text} (h : IsName name) : fileName? name = some name := by
  rw [fileName?, components_of_isName h]
  rfl

/-- A bare name lies in the empty path. -/
theorem parent?_of_isName {name : Text} (h : IsName name) : parent? name = some [] := by
  obtain ⟨⟨c, stop⟩, hlocated, hc⟩ := List.map_eq_singleton_iff.mp (components_of_isName h)
  obtain rfl : c = .named name := hc
  rw [parent?, hlocated]
  rfl

/-- Without the name, what is left of a path that goes on with a name is the path. -/
theorem dropLast_components_join (dir : Path) {name : Text} (h : IsName name) :
    (components (join dir name)).dropLast = components dir := by
  by_cases hdir : dir = []
  · rw [hdir, join_nil, components_of_isName h]
    rfl
  · rw [components_join hdir h, List.dropLast_concat]

/-! ### Behind a dot -/

theorem components_join_here {p : Path} (hp : isAbsolute p = false) :
    components (join "." p) = .current :: inner p :=
  components_join_of_relative (List.cons_ne_nil dot []) hp

/-- A dot in front does not change the file name. -/
theorem fileName?_join_here (p : Path) : fileName? (join "." p) = fileName? p := by
  cases hp : isAbsolute p with
  | true => rw [join_of_isAbsolute hp]
  | false =>
    rw [fileName?, fileName?, components_join_here hp]
    rcases components_of_relative hp with h | h
    · rw [h]
      cases inner p with
      | nil => rfl
      | cons c cs => rw [List.getLast?_cons_cons]
    · rw [h]

/-- Behind a dot a name lies in the dot. -/
theorem parent?_join_here {name : Text} (h : IsName name) :
    parent? (join "." name) = some (Text.ofString ".") := by
  have hjoin : join "." name = [dot] ++ slash :: name := by
    unfold join
    rw [isAbsolute_of_isName h]
    rfl
  have hlocated : located (join "." name) = [(.current, 1), (.named name, 2 + name.length)] := by
    have hsplit : split slash (join "." name) = [[dot], name] := by
      rw [hjoin, split_append, split_of_not_mem h.2.1]
      rfl
    rw [located_eq, body, hsplit, hjoin]
    simp only [piecesFrom, List.filterMap_cons, componentOf?_of_isName h]
    rfl
  rw [parent?, hlocated, hjoin]
  rfl

end PascalSurvey.Path
