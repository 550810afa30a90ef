/-
PascalSurvey/Proofs/Text/Fold.lean

Texts up to the case of ASCII letters.  Texts that are equal but for case have the same bytes
beyond ASCII, and a list without repetitions still holds, but for case, all that it was made of.
-/
import PascalSurvey.Text.Basic

namespace PascalSurvey

open Ascii

theorem Ascii.lower_upper (b : UInt8) : lower (upper b) = lower b := by
  rw [upper]
  split
  · next h =>
    simp only [lower, isUpper, isLower, Bool.and_eq_true, decide_eq_true_eq, UInt8.le_iff_toNat_le,
      UInt8.toNat_sub, UInt8.reduceToNat] at h ⊢
    rw [if_pos (by omega), if_neg (by omega), UInt8.sub_add_cancel]
  · rfl

theorem Ascii.lower_lt_iff (b : UInt8) : lower b < 0x80 ↔ b < 0x80 := by
  rw [lower]
  split
  · next h =>
    simp only [isUpper, Bool.and_eq_true, decide_eq_true_eq, UInt8.le_iff_toNat_le,
      UInt8.lt_iff_toNat_lt, UInt8.toNat_add, UInt8.reduceToNat] at h ⊢
    omega
  · rfl

/-- Only a capital letter changes, into a small one. -/
theorem Ascii.lower_eq_self {b : UInt8} (h : isLower (lower b) = false) : lower b = b := by
  rw [lower] at h ⊢
  split
  · next hup =>
    rw [if_pos hup] at h
    simp only [isUpper, isLower, Bool.and_eq_true, Bool.and_eq_false_iff, decide_eq_true_eq,
      decide_eq_false_iff_not, UInt8.le_iff_toNat_le, UInt8.toNat_add, UInt8.reduceToNat] at hup h
    omega
  · rfl

namespace Text

theorem eqFold_iff {a b : Text} : eqFold a b = true ↔ toLower a = toLower b := by
  rw [eqFold, beq_iff_eq]

theorem memFold_iff {t : Text} {ts : List Text} :
    memFold t ts = true ↔ ∃ u ∈ ts, toLower t = toLower u := by
  simp [memFold, eqFold_iff]

theorem toLower_toUpper (t : Text) : toLower (toUpper t) = toLower t := by
  simp [toLower, toUpper, lower_upper]

theorem memFold_of_forall {t : Text} {ts us : List Text} (h : memFold t ts = true)
    (hts : ∀ u ∈ ts, memFold u us = true) : memFold t us = true := by
  obtain ⟨u, hu, htu⟩ := memFold_iff.mp h
  obtain ⟨v, hv, huv⟩ := memFold_iff.mp (hts u hu)
  exact memFold_iff.mpr ⟨v, hv, htu.trans huv⟩

/-- Texts that are equal but for case are in ASCII together. -/
theorem ascii_of_toLower_eq {t u : Text} (h : toLower t = toLower u) (hu : ∀ b ∈ u, b < 0x80) :
    ∀ b ∈ t, b < 0x80 := by
  intro b hb
  have hmem : lower b ∈ toLower u := h ▸ List.mem_map_of_mem hb
  obtain ⟨c, hc, hlower⟩ := List.mem_map.mp hmem
  rw [← lower_lt_iff, ← hlower, lower_lt_iff]
  exact hu c hc

/-! ### Lists without repetitions -/

/-- No two texts of a list are equal in any case. -/
def ApartFold (ts : List Text) : Prop := ts.Pairwise fun t u => eqFold t u = false

instance (ts : List Text) : Decidable (ApartFold ts) :=
  inferInstanceAs (Decidable (ts.Pairwise _))

theorem ApartFold.pushUnique {ts : List Text} (h : ApartFold ts) (t : Text) :
    ApartFold (pushUnique ts t) := by
  rw [Text.pushUnique]
  split
  · exact h
  · next hnew =>
    refine List.pairwise_append.mpr ⟨h, List.pairwise_singleton _ _, ?_⟩
    intro u hu v hv
    obtain rfl := List.mem_singleton.mp hv
    rw [Bool.eq_false_iff]
    intro hfold
    exact hnew (memFold_iff.mpr ⟨u, hu, (eqFold_iff.mp hfold).symm⟩)

theorem apartFold_dedupFold (ts : List Text) : ApartFold (dedupFold ts) :=
  List.foldlRecOn ts _ List.Pairwise.nil fun _ h t _ => h.pushUnique t

theorem memFold_of_mem {t : Text} {ts : List Text} (h : t ∈ ts) : memFold t ts = true :=
  memFold_iff.mpr ⟨t, h, rfl⟩

/-- Texts that are equal but for case are in the same lists. -/
theorem memFold_congr {t u : Text} (h : eqFold t u = true) (ts : List Text) :
    memFold t ts = memFold u ts := by
  rw [Bool.eq_iff_iff, memFold_iff, memFold_iff, eqFold_iff.mp h]

theorem memFold_pushUnique (t u : Text) (ts : List Text) :
    memFold t (pushUnique ts u) = (memFold t ts || eqFold t u) := by
  rw [pushUnique]
  split
  · next hold =>
    cases hfold : eqFold t u with
    | false => exact (Bool.or_false _).symm
    | true => rw [memFold_congr hfold, hold, Bool.true_or]
  · simp [memFold]

/-- What a list holds, but for case, after others are taken up without repetitions. -/
theorem memFold_foldl_pushUnique (t : Text) (ts kept : List Text) :
    memFold t (ts.foldl pushUnique kept) = (memFold t kept || memFold t ts) := by
  induction ts generalizing kept with
  | nil => exact (Bool.or_false _).symm
  | cons u ts ih =>
    rw [List.foldl_cons, ih, memFold_pushUnique, Bool.or_assoc]
    rfl

/-- A list without repetitions holds, but for case, all that it was made of and nothing else. -/
theorem memFold_dedupFold_eq (t : Text) (ts : List Text) :
    memFold t (dedupFold ts) = memFold t ts :=
  memFold_foldl_pushUnique t ts []

theorem memFold_dedupFold {t : Text} {ts : List Text} (h : t ∈ ts) :
    memFold t (dedupFold ts) = true := by
  rw [memFold_dedupFold_eq, memFold_of_mem h]

theorem foldl_pushUnique_pushUnique (ts kept : List Text) (t : Text) :
    (pushUnique ts t).foldl pushUnique kept = pushUnique (ts.foldl pushUnique kept) t := by
  rw [pushUnique]
  split
  · next h => rw [pushUnique, memFold_foldl_pushUnique, h, Bool.or_true, if_pos rfl]
  · rw [List.foldl_append, List.foldl_cons, List.foldl_nil]

/-- Putting lists together without repetitions is associative. -/
theorem foldl_pushUnique_foldl (ts more kept : List Text) :
    (more.foldl pushUnique ts).foldl pushUnique kept =
      more.foldl pushUnique (ts.foldl pushUnique kept) := by
  induction more generalizing ts with
  | nil => rfl
  | cons t more ih => rw [List.foldl_cons, List.foldl_cons, ih, foldl_pushUnique_pushUnique]

/-- It does not matter whether the repetitions within a list are left out first. -/
theorem foldl_pushUnique_dedupFold (ts kept : List Text) :
    (dedupFold ts).foldl pushUnique kept = ts.foldl pushUnique kept :=
  foldl_pushUnique_foldl [] ts kept

theorem dedupFold_append (xs ys : List Text) :
    dedupFold (xs ++ ys) = ys.foldl pushUnique (dedupFold xs) :=
  List.foldl_append

end Text

end PascalSurvey
