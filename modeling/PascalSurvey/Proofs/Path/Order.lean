/-
PascalSurvey/Proofs/Path/Order.lean

The order of paths.  Names are ordered by their bytes, components by kind and name, and paths by
their components, and each of these is the lexicographic order over the one before it.  So what
makes an order linear passes from bytes to component lists, by the instances for `List.Lex`.

Two spellings of one path are equal in this order.  Where no two paths of a list are one, the
sorted list does not depend on the order of the list (`sort_eq_of_perm`).
-/
import Mathlib.Data.List.Lex
import PascalSurvey.Path

namespace PascalSurvey.Path

/-! ### Bytes and names -/

/-- A byte comes before another. -/
def ByteBefore (a b : UInt8) : Prop := a < b

instance : Std.Trichotomous ByteBefore where
  trichotomous a b hab hba := by
    simp only [ByteBefore, UInt8.not_lt] at hab hba
    exact UInt8.le_antisymm hba hab

instance : Std.Asymm ByteBefore where
  asymm _ _ := UInt8.lt_asymm

instance : IsOrderConnected UInt8 ByteBefore where
  conn a b c h := by
    rcases UInt8.lt_or_le a b with hab | hba
    · exact .inl hab
    · exact .inr (UInt8.lt_of_le_of_lt hba h)

theorem bytesLt_eq_lex (a b : Text) : bytesLt a b = a.lex b fun x y => decide (x < y) := by
  fun_induction bytesLt a b with
  | case1 | case2 | case3 => rfl
  | case4 a as b bs ih => rw [List.lex, ih]

theorem bytesLt_iff {a b : Text} : bytesLt a b = true ↔ List.Lex ByteBefore a b := by
  rw [bytesLt_eq_lex, List.lex_eq_true_iff_lex]
  simp only [decide_eq_true_eq]
  rfl

/-! ### Components -/

/-- A component comes before another. -/
inductive Component.Before : Component → Component → Prop
  | rank {c d : Component} : c.rank < d.rank → Before c d
  | name {a b : Text} : List.Lex ByteBefore a b → Before (.named a) (.named b)

theorem Component.lt_iff {c d : Component} : c.lt d = true ↔ c.Before d := by
  constructor
  · intro h
    unfold Component.lt at h
    split at h
    · exact .name (bytesLt_iff.mp h)
    · exact .rank (of_decide_eq_true h)
  · rintro (h | h)
    · unfold Component.lt
      split
      · exact absurd h (Nat.lt_irrefl 3)
      · exact decide_eq_true h
    · exact bytesLt_iff.mpr h

/-- Components of one kind are equal unless they are names. -/
theorem Component.eq_of_rank_eq {c d : Component} (h : c.rank = d.rank) :
    c = d ∨ ∃ a b, c = .named a ∧ d = .named b := by
  cases c <;> cases d <;> simp_all [Component.rank]

instance : Std.Trichotomous Component.Before where
  trichotomous c d hcd hdc := by
    have hrank : c.rank = d.rank :=
      Nat.le_antisymm (Nat.le_of_not_lt fun h => hdc (.rank h))
        (Nat.le_of_not_lt fun h => hcd (.rank h))
    rcases Component.eq_of_rank_eq hrank with rfl | ⟨a, b, rfl, rfl⟩
    · rfl
    · have hab := Std.Trichotomous.trichotomous (r := List.Lex ByteBefore) a b
        (fun h => hcd (.name h)) (fun h => hdc (.name h))
      rw [hab]

instance : Std.Asymm Component.Before where
  asymm c d hcd hdc := by
    cases hcd with
    | rank h =>
      cases hdc with
      | rank h' => exact Nat.lt_asymm h h'
      | name => exact Nat.lt_irrefl 3 h
    | name h =>
      cases hdc with
      | rank h' => exact Nat.lt_irrefl 3 h'
      | name h' => exact Std.Asymm.asymm _ _ h h'

instance : IsOrderConnected Component Component.Before where
  conn c d e h := by
    rcases Nat.lt_trichotomy c.rank d.rank with hcd | hcd | hdc
    · exact .inl (.rank hcd)
    · rcases Component.eq_of_rank_eq hcd with rfl | ⟨a, b, rfl, rfl⟩
      · exact .inr h
      · cases h with
        | rank h => exact .inr (.rank h)
        | name h => exact (IsOrderConnected.conn a b _ h).imp .name .name
    · cases h with
      | rank h => exact .inr (.rank (Nat.lt_trans hdc h))
      | name => exact .inr (.rank hdc)

theorem componentsLt_eq_lex (cs ds : List Component) :
    componentsLt cs ds = cs.lex ds Component.lt := by
  fun_induction componentsLt cs ds with
  | case1 | case2 | case3 => rfl
  | case4 c cs d ds ih => rw [List.lex, ih]

theorem componentsLt_iff {cs ds : List Component} :
    componentsLt cs ds = true ↔ List.Lex Component.Before cs ds := by
  rw [componentsLt_eq_lex, List.lex_eq_true_iff_lex]
  simp only [Component.lt_iff]

/-! ### Paths -/

theorem le_iff {p q : Path} :
    le p q = true ↔ ¬List.Lex Component.Before (components q) (components p) := by
  rw [le, Bool.not_eq_true', ← Bool.not_eq_true, componentsLt_iff]

theorem le_trans {p q r : Path} (hpq : le p q = true) (hqr : le q r = true) : le p r = true := by
  rw [le_iff] at hpq hqr ⊢
  exact IsOrderConnected.neg_trans hqr hpq

theorem le_total (p q : Path) : (le p q || le q p) = true := by
  rw [Bool.or_eq_true, le_iff, le_iff, ← not_and_or]
  rintro ⟨h, h'⟩
  exact Std.Asymm.asymm _ _ h h'

theorem components_eq_of_le {p q : Path} (hpq : le p q = true) (hqp : le q p = true) :
    components p = components q :=
  Std.Trichotomous.trichotomous (r := List.Lex Component.Before) _ _ (le_iff.mp hqp)
    (le_iff.mp hpq)

theorem pairwise_sort (ps : List Path) : (sort ps).Pairwise fun p q => le p q = true :=
  @List.pairwise_mergeSort _ le (fun _ _ _ => le_trans) le_total ps

/-- Paths that are all different in their components are sorted in one way. -/
theorem sort_eq_of_perm {ps qs : List Path} (h : ps.Perm qs)
    (hdiffer : ∀ p ∈ ps, ∀ q ∈ ps, components p = components q → p = q) : sort ps = sort qs := by
  refine List.Perm.eq_of_pairwise ?_ (pairwise_sort ps) (pairwise_sort qs)
    (((List.mergeSort_perm ps le).trans h).trans (List.mergeSort_perm qs le).symm)
  intro p q hp hq hpq hqp
  refine hdiffer p ?_ q ?_ (components_eq_of_le hpq hqp)
  · exact (List.mergeSort_perm ps le).mem_iff.mp hp
  · exact h.mem_iff.mpr ((List.mergeSort_perm qs le).mem_iff.mp hq)

end PascalSurvey.Path
