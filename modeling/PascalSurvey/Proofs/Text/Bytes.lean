/-
PascalSurvey/Proofs/Text/Bytes.lean

Texts at offsets: a cursor at an offset is the text cut there, and the byte at an offset is
the head of what is left.  Line breaks are counted up to an offset, and trimming loses none
but at the end.  The few facts about byte classes say which of them exclude each other.
-/
import PascalSurvey.Text.Blank
import PascalSurvey.Text.Cursor

namespace PascalSurvey

/-! ### Cursors at offsets -/

namespace Cursor

theorem advance_eq (n : Nat) (c : Cursor) :
    c.advance n =
      ⟨c.offset + min n c.after.length, (c.after.take n).reverse ++ c.before, c.after.drop n⟩ := by
  induction n generalizing c with
  | zero => simp [advance]
  | succ n ih =>
    obtain ⟨o, bs, as⟩ := c
    cases as with
    | nil => simp [advance]
    | cons a as =>
      rw [advance, ih]
      simp
      omega

theorem ofOffset_eq (t : Text) (i : Nat) :
    ofOffset t i = ⟨min i t.length, (t.take i).reverse, t.drop i⟩ := by
  simp [ofOffset, advance_eq, start]

theorem ofOffset_of_le {t : Text} {i : Nat} (h : i ≤ t.length) :
    ofOffset t i = ⟨i, (t.take i).reverse, t.drop i⟩ := by
  rw [ofOffset_eq, Nat.min_eq_left h]

theorem advance_ofOffset {t : Text} {i : Nat} (h : i ≤ t.length) (n : Nat) :
    (ofOffset t i).advance n = ofOffset t (i + n) := by
  simp only [ofOffset_eq, advance_eq, List.length_drop, List.drop_drop, List.take_add,
    List.reverse_append]
  congr 1
  omega

theorem offset_ofOffset {t : Text} {i : Nat} (h : i ≤ t.length) : (ofOffset t i).offset = i := by
  rw [ofOffset_eq]
  exact Nat.min_eq_left h

@[simp] theorem before_ofOffset (t : Text) (i : Nat) :
    (ofOffset t i).before = (t.take i).reverse := by
  rw [ofOffset_eq]

@[simp] theorem after_ofOffset (t : Text) (i : Nat) : (ofOffset t i).after = t.drop i := by
  rw [ofOffset_eq]

theorem lt_of_not_atEnd {t : Text} {i : Nat} (h : ¬(ofOffset t i).atEnd = true) : i < t.length := by
  rw [atEnd, after_ofOffset, List.isEmpty_iff, List.drop_eq_nil_iff] at h
  omega

/-- A search without an answer has none at any place from where it begins. -/
theorem search?_eq_none {α : Type} {p : Cursor → Option α} {t : Text} {i j : Nat}
    (h : (ofOffset t i).search? p = none) (hij : i ≤ j) (hj : j ≤ t.length) :
    p (ofOffset t j) = none := by
  induction hlen : j - i using Nat.strongRecOn generalizing i with
  | ind n ih =>
    subst hlen
    unfold search? at h
    split at h
    · cases h
    next hp =>
    rcases Nat.eq_or_lt_of_le hij with rfl | hlt
    · exact hp
    · split at h
      · next hend =>
        rw [atEnd, after_ofOffset, List.isEmpty_iff, List.drop_eq_nil_iff] at hend
        omega
      · rw [advance_ofOffset (by omega)] at h
        exact ih _ (by omega) h hlt rfl

/-- A search answers at a place of the text. -/
theorem search?_eq_some {α : Type} {p : Cursor → Option α} {t : Text} {i : Nat} {a : α}
    (hi : i ≤ t.length) (h : (ofOffset t i).search? p = some a) :
    ∃ j ≤ t.length, p (ofOffset t j) = some a := by
  induction hlen : t.length - i using Nat.strongRecOn generalizing i with
  | ind n ih =>
    subst hlen
    unfold search? at h
    split at h
    · next b hb => exact ⟨i, hi, by rw [hb, Option.some.inj h]⟩
    · split at h
      · cases h
      · next hend =>
        have hlt := lt_of_not_atEnd hend
        rw [advance_ofOffset hi] at h
        exact ih _ (by omega) (by omega) h rfl

theorem ofOffset_min (t : Text) (i : Nat) : ofOffset t (min i t.length) = ofOffset t i := by
  rw [ofOffset_eq, ofOffset_eq, Nat.min_assoc, Nat.min_self]
  rcases Nat.le_total i t.length with hi | hi
  · rw [Nat.min_eq_left hi]
  · rw [Nat.min_eq_right hi, List.take_length, List.take_of_length_le hi, List.drop_length,
      List.drop_eq_nil_of_le hi]

/-- All answers of a search are answers at places of the text. -/
theorem mem_searchAll {α : Type} {p : Cursor → Option (α × Nat)} {t : Text} {i : Nat} {a : α}
    (hi : i ≤ t.length) (h : a ∈ (ofOffset t i).searchAll p) :
    ∃ j ≤ t.length, ∃ n, p (ofOffset t j) = some (a, n) := by
  induction hlen : t.length - i using Nat.strongRecOn generalizing i with
  | ind m ih =>
    subst hlen
    have onward {k : Nat} (hk : 0 < k) (h : a ∈ if (ofOffset t i).atEnd then [] else
        ((ofOffset t i).advance k).searchAll p) :
        ∃ j ≤ t.length, ∃ n, p (ofOffset t j) = some (a, n) := by
      split at h
      · cases h
      · next hend =>
        have hlt := lt_of_not_atEnd hend
        rw [advance_ofOffset hi, ← ofOffset_min] at h
        exact ih _ (by omega) (Nat.min_le_right _ _) h rfl
    unfold searchAll at h
    split at h
    · next b n hb =>
      rcases List.mem_cons.mp h with rfl | h
      · exact ⟨i, hi, n, hb⟩
      · exact onward (by omega) h
    · exact onward Nat.one_pos h

/-- A function of the answers is applied while they are found. -/
theorem searchAll_map {α β : Type} (f : α → β) (p : Cursor → Option (α × Nat)) (c : Cursor) :
    c.searchAll (fun c => (p c).map fun (a, n) => (f a, n)) = (c.searchAll p).map f := by
  fun_induction searchAll p c with
  | case1 c a n hp ih =>
    rw [searchAll, hp, Option.map_some]
    dsimp only
    rw [List.map_cons]
    congr 1
    split
    · rfl
    · next hend => exact ih hend
  | case2 c hp hend =>
    rw [searchAll, hp, Option.map_none]
    dsimp only
    rw [if_pos hend]
    rfl
  | case3 c hp hend ih =>
    rw [searchAll, hp, Option.map_none]
    dsimp only
    rw [if_neg hend, ih]

end Cursor

namespace Text

/-! ### The byte at an offset -/

theorem lt_length_of_getElem? {t : Text} {i : Nat} {b : UInt8} (h : t[i]? = some b) :
    i < t.length :=
  (List.getElem?_eq_some_iff.mp h).1

theorem drop_of_getElem? {t : Text} {i : Nat} {b : UInt8} (h : t[i]? = some b) :
    t.drop i = b :: t.drop (i + 1) := by
  obtain ⟨hi, rfl⟩ := List.getElem?_eq_some_iff.mp h
  exact List.drop_eq_getElem_cons hi

theorem getElem?_of_drop {t : Text} {i : Nat} {b : UInt8} {r : Text} (h : t.drop i = b :: r) :
    t[i]? = some b := by
  rw [← List.head?_drop, h]
  rfl

theorem getElem?_of_lt_takeWhile {p : UInt8 → Bool} {t : Text} {j : Nat}
    (h : j < (t.takeWhile p).length) : ∃ c, t[j]? = some c ∧ p c = true := by
  induction t generalizing j with
  | nil => simp at h
  | cons b r ih =>
    rw [List.takeWhile_cons] at h
    split at h
    · next hb =>
      cases j with
      | zero => exact ⟨b, rfl, hb⟩
      | succ j => exact ih (by simpa using h)
    · simp at h

theorem getElem?_of_find? {b : UInt8} {t : Text} {n : Nat} (h : find? b t = some n) :
    t[n]? = some b := by
  obtain ⟨hn, hb, -⟩ := List.findIdx?_eq_some_iff_getElem.mp h
  rw [List.getElem?_eq_getElem hn]
  exact congrArg some (by simpa using hb)

/-- A slice that ends in the first of two texts. -/
theorem slice_append_of_le {t u : Text} {e : Nat} (he : e ≤ t.length) (s : Nat) :
    slice (t ++ u) s e = slice t s e := by
  rcases Nat.le_total s e with hse | hse
  · rw [slice, slice, List.drop_append_of_le_length (Nat.le_trans hse he),
      List.take_append_of_le_length (by rw [List.length_drop]; omega)]
  · rw [slice, slice, Nat.sub_eq_zero_of_le hse, List.take_zero, List.take_zero]

/-- Two slices that meet are one. -/
theorem slice_append_slice (t : Text) {a b c : Nat} (hab : a ≤ b) (hbc : b ≤ c) :
    slice t a b ++ slice t b c = slice t a c := by
  obtain ⟨n, rfl⟩ := Nat.exists_eq_add_of_le hab
  obtain ⟨m, rfl⟩ := Nat.exists_eq_add_of_le hbc
  rw [slice, slice, slice, Nat.add_sub_cancel_left, Nat.add_sub_cancel_left, Nat.add_assoc,
    Nat.add_sub_cancel_left, List.take_add, List.drop_drop]

/-- What is left of a slice. -/
theorem drop_slice (t : Text) (a b n : Nat) : (slice t a b).drop n = slice t (a + n) b := by
  rw [slice, slice, List.drop_take, List.drop_drop, Nat.sub_sub]

theorem length_slice {t : Text} {a b : Nat} (hb : b ≤ t.length) :
    (slice t a b).length = b - a := by
  rw [slice, List.length_take, List.length_drop]
  omega

/-- A slice of a slice. -/
theorem slice_slice (t : Text) {a b e : Nat} (h : a + e ≤ b) (s : Nat) :
    slice (slice t a b) s e = slice t (a + s) (a + e) := by
  rw [slice, slice, slice, List.drop_take, List.drop_drop, List.take_take]
  congr 1
  omega

theorem after?_eq_some_iff {head t r : Text} : after? head t = some r ↔ t = head ++ r := by
  induction head generalizing t with
  | nil =>
    rw [after?, Option.some.injEq, List.nil_append]
  | cons a head ih =>
    cases t with
    | nil => simp [after?]
    | cons b t =>
      rw [after?, List.cons_append, List.cons.injEq]
      split
      · next h => rw [ih, and_iff_right h.symm]
      · next h => simp [Ne.symm h]

/-- A text is cut at the first separator. -/
theorem cut?_append {sep : UInt8} {x : Text} (hx : sep ∉ x) (y : Text) :
    cut? sep (x ++ sep :: y) = some (x, y) := by
  induction x with
  | nil => simp [cut?]
  | cons b x ih =>
    rw [List.mem_cons, not_or] at hx
    rw [List.cons_append, cut?, if_neg (Ne.symm hx.1), ih hx.2]
    rfl

theorem cut?_eq_some {sep : UInt8} {t x y : Text} (h : cut? sep t = some (x, y)) :
    t = x ++ sep :: y := by
  induction t generalizing x with
  | nil => cases h
  | cons b r ih =>
    rw [cut?] at h
    split at h
    · next hb =>
      obtain ⟨rfl, rfl⟩ := Prod.mk.inj (Option.some.inj h)
      rw [hb, List.nil_append]
    · obtain ⟨⟨x', y'⟩, hcut, heq⟩ := Option.map_eq_some_iff.mp h
      obtain ⟨rfl, rfl⟩ := Prod.mk.inj heq
      rw [ih hcut, List.cons_append]

/-- A text is cut at the last separator. -/
theorem cutLast?_append {sep : UInt8} {y : Text} (hy : sep ∉ y) (x : Text) :
    cutLast? sep (x ++ sep :: y) = some (x, y) := by
  have hcut := cut?_append (x := y.reverse) (by simpa using hy) x.reverse
  rw [cutLast?, List.reverse_append, List.reverse_cons, List.append_assoc, List.singleton_append,
    hcut]
  simp

theorem cutLast?_eq_some {sep : UInt8} {t x y : Text} (h : cutLast? sep t = some (x, y)) :
    t = x ++ sep :: y := by
  obtain ⟨⟨y', x'⟩, hcut, heq⟩ := Option.map_eq_some_iff.mp h
  obtain ⟨rfl, rfl⟩ := Prod.mk.inj heq
  have hrev := congrArg List.reverse (cut?_eq_some hcut)
  rw [List.reverse_reverse] at hrev
  simpa using hrev

/-! ### Line breaks -/

theorem dropBlanksBack_suffix (u : Text) : dropBlanksBack u <:+ u := by
  fun_induction dropBlanksBack u with
  | case1 => exact List.suffix_refl []
  | case2 a before _ _ ih => exact ih.trans (List.suffix_cons a before)
  | case4 a _ b before _ ih =>
    exact ih.trans ((List.suffix_cons b before).trans (List.suffix_cons a _))
  | case5 a _ b _ c before _ ih =>
    exact ih.trans ((List.suffix_cons c before).trans
      ((List.suffix_cons b _).trans (List.suffix_cons a _)))
  | _ => exact List.suffix_refl _

theorem isPrefix_trimEnd (t : Text) : trimEnd t <+: t := by
  have h := List.reverse_prefix.mpr (dropBlanksBack_suffix t.reverse)
  rwa [List.reverse_reverse] at h

theorem breaks_trimEnd_le (t : Text) : breaks (trimEnd t) ≤ breaks t :=
  (isPrefix_trimEnd t).sublist.count_le _

theorem breaks_take_le (t : Text) (i : Nat) : breaks (t.take i) ≤ breaks t :=
  (List.take_sublist i t).count_le _

theorem breaks_take_mono (t : Text) {i j : Nat} (h : i ≤ j) :
    breaks (t.take i) ≤ breaks (t.take j) :=
  (List.take_sublist_take_left h).count_le _

/-- The line breaks up to an offset are those before a slice and those in it. -/
theorem breaks_slice (t : Text) {s e : Nat} (h : s ≤ e) :
    breaks (t.take s) + breaks (slice t s e) = breaks (t.take e) := by
  obtain ⟨k, rfl⟩ := Nat.exists_eq_add_of_le h
  rw [slice, Nat.add_sub_cancel_left, List.take_add, breaks, breaks, breaks, List.count_append]

/-- The line of an offset that is counted from another one. -/
theorem lineOf_add (t : Text) (p i : Nat) :
    lineOf t p + breaks ((t.drop p).take i) = lineOf t (p + i) := by
  rw [lineOf, lineOf, List.take_add, breaks, breaks, breaks, List.count_append]
  omega

end Text

/-! ### Byte classes -/

namespace Ascii

theorem ne_of_class {p : UInt8 → Bool} {b c : UInt8} (hb : p b = true) (hc : p c = false) :
    b ≠ c := by
  rintro rfl
  rw [hb] at hc
  cases hc

theorem isIdentStart_isIdentByte {b : UInt8} (h : isIdentStart b = true) :
    isIdentByte b = true := by
  simp only [isIdentStart, isIdentByte, Bool.or_eq_true] at h ⊢
  exact h.imp_left .inl

theorem isIdentByte_lt {b : UInt8} (h : isIdentByte b = true) : b < 0x80 := by
  simp only [isIdentByte, isLetter, isUpper, isLower, isDigit, Bool.or_eq_true, Bool.and_eq_true,
    decide_eq_true_eq, beq_iff_eq] at h
  rcases h with ((⟨-, h⟩ | ⟨-, h⟩) | ⟨-, h⟩) | rfl
  · exact UInt8.lt_of_le_of_lt h (by decide)
  · exact UInt8.lt_of_le_of_lt h (by decide)
  · exact UInt8.lt_of_le_of_lt h (by decide)
  · decide

theorem not_isBlank_of_isIdentStart {b : UInt8} (h : isIdentStart b = true) :
    isBlank b = false := by
  cases hb : isBlank b with
  | false => rfl
  | true =>
    simp only [isBlank, Bool.or_eq_true, beq_iff_eq] at hb
    rcases hb with (((rfl | rfl) | rfl) | rfl) | rfl <;> exact absurd h (by decide)

theorem not_isIdentByte_of_isBlank {c : UInt8} (h : isBlank c = true) : isIdentByte c = false := by
  simp only [isBlank, Bool.or_eq_true, beq_iff_eq] at h
  rcases h with (((rfl | rfl) | rfl) | rfl) | rfl <;> decide

theorem not_isBlankChar_of_isIdentByte {c : UInt8} (h : isIdentByte c = true) :
    isBlankChar c.toNat = false := by
  simp only [isIdentByte, isLetter, isUpper, isLower, isDigit, Bool.or_eq_true, Bool.and_eq_true,
    decide_eq_true_eq, beq_iff_eq, UInt8.le_iff_toNat_le] at h
  rw [Bool.eq_false_iff]
  intro hblank
  simp only [isBlankChar, Bool.or_eq_true, Bool.and_eq_true, decide_eq_true_eq, beq_iff_eq] at hblank
  rcases h with h | rfl
  · simp at h
    omega
  · revert hblank
    decide

theorem isLetter_of_lower {b w : UInt8} (h : lower b = w) (hw : isLower w = true) :
    isLetter b = true := by
  unfold lower at h
  split at h
  · next hb => simp [isLetter, hb]
  · rw [← h] at hw
    simp [isLetter, hw]

theorem toLower_of_isLower {word : Text} (hword : ∀ w ∈ word, isLower w = true) :
    Text.toLower word = word := by
  have hlower (w : UInt8) (hw : w ∈ word) : lower w = w := by
    have h := hword w hw
    simp only [isLower, Bool.and_eq_true, decide_eq_true_eq, UInt8.le_iff_toNat_le,
      UInt8.reduceToNat] at h
    rw [lower, isUpper, if_neg]
    simp only [Bool.and_eq_true, decide_eq_true_eq, UInt8.le_iff_toNat_le, UInt8.reduceToNat]
    omega
  rw [Text.toLower, List.map_congr_left hlower, List.map_id']

/-- A word that spells a word of small letters in any case is one of letters. -/
theorem isLetter_of_toLower {w k : Text} (h : Text.toLower w = k) (hk : ∀ c ∈ k, isLower c = true) :
    ∀ c ∈ w, isLetter c = true := by
  intro c hc
  have hmem : lower c ∈ k := by
    rw [← h]
    exact List.mem_map_of_mem hc
  exact isLetter_of_lower rfl (hk _ hmem)

end Ascii
end PascalSurvey
