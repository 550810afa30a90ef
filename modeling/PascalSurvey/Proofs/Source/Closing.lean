/-
PascalSurvey/Proofs/Source/Closing.lean

Which parenthesis closes another one.  Only parentheses of code count, in the text as it is read
from the opening one on (`CodeAt`), and the closing one is the first up to which they balance
(`Balances`).

`ClosingScan t i j d` is the search from left to right: it stops at offset `j` with `d` parentheses
open.  Each of its states has the same answer as the first (`ClosingScan.closingParen?_eq`), and it
comes to a parenthesis that closes, or to the end of the text (`ClosingScan.exists_answer`).  In
each state the depth is the number of parentheses that have been opened and not closed, and behind
the opening parenthesis it has not been zero (`Unclosed`).

Main result: `closingParen?_isLeast`.
-/
import Mathlib.Data.Nat.Count
import Mathlib.Order.Bounds.Basic
import PascalSurvey.Proofs.Source.Parens
import PascalSurvey.Proofs.Source.Scan
import PascalSurvey.Proofs.Source.Slice

namespace PascalSurvey.Source

open Ascii

/-! ### Code behind an offset -/

/-- The byte `b` stands at offset `j`, and it is code when the text is read from offset `i` on. -/
def CodeAt (t : Text) (i : Nat) (b : UInt8) (j : Nat) : Prop :=
  i ≤ j ∧ t[j]? = some b ∧ isCode (t.drop i) (j - i) = true

instance (t : Text) (i : Nat) (b : UInt8) : DecidablePred (CodeAt t i b) := fun _ =>
  inferInstanceAs (Decidable (_ ∧ _ ∧ _))

theorem Outside.isCode_drop {t : Text} {i : Nat} (h : Outside t i) (k : Nat) :
    Source.isCode (t.drop i) k = Source.isCode t (i + k) := by
  have hmarks : (codeMarks t).drop i = codeMarks (t.drop i) :=
    h.flatMap_pieces_drop bytewise_marks.length
  rw [Source.isCode, ← hmarks, List.getElem?_drop]
  rfl

section
variable {t : Text} {i j e : Nat} {b : UInt8}

theorem codeAt_of_outside (hij : i ≤ j) (h : Outside (t.drop i) (j - i))
    (hend : regionEnd? t j = none) (hb : t[j]? = some b) : CodeAt t i b j := by
  have hdrop : (t.drop i).drop (j - i) = b :: t.drop (j + 1) := by
    rw [List.drop_drop, Nat.add_sub_cancel' hij, Text.drop_of_getElem? hb]
  rw [regionEnd?_eq_none_iff, Text.drop_of_getElem? hb] at hend
  exact ⟨hij, hb, h.isCode hdrop hend⟩

/-- A region has no code. -/
theorem not_codeAt_of_region (hij : i ≤ j) (h : Outside (t.drop i) (j - i))
    (hend : regionEnd? t j = some e) {k : Nat} (hjk : j ≤ k) (hke : k < e) :
    ¬CodeAt t i b k := by
  rintro ⟨-, -, hcode⟩
  obtain ⟨kind, n, hr, rfl⟩ := regionEnd?_eq_some_iff.mp hend
  rw [show k - i = (j - i) + (k - j) by omega, ← h.isCode_drop, List.drop_drop,
    Nat.add_sub_cancel' hij, isCode_region hr, Bool.and_eq_true, decide_eq_true_eq] at hcode
  omega

/-- Nothing in front of the offset where the reading begins is counted. -/
theorem count_codeAt_start : Nat.count (CodeAt t i b) i = 0 :=
  Nat.count_of_forall_not fun _ hk h => absurd h.1 (Nat.not_le.mpr hk)

theorem count_codeAt_succ {c : UInt8} (h : CodeAt t i b j) :
    Nat.count (CodeAt t i c) (j + 1) = Nat.count (CodeAt t i c) j + if b = c then 1 else 0 := by
  have hiff : CodeAt t i c j ↔ b = c := by
    constructor
    · rintro ⟨-, hc, -⟩
      exact Option.some.inj (h.2.1.symm.trans hc)
    · rintro rfl
      exact h
  rw [Nat.count_succ]
  simp only [hiff]

theorem count_codeAt_region (hij : i ≤ j) (h : Outside (t.drop i) (j - i))
    (hend : regionEnd? t j = some e) {k : Nat} (hjk : j ≤ k) (hke : k ≤ e) :
    Nat.count (CodeAt t i b) k = Nat.count (CodeAt t i b) j := by
  induction k, hjk using Nat.le_induction with
  | base => rfl
  | succ k hjk ih =>
    rw [Nat.count_succ, if_neg (not_codeAt_of_region hij h hend hjk hke), Nat.add_zero]
    exact ih (Nat.le_of_succ_le hke)

end

/-- At offset `c`, behind offset `i`, stands a closing parenthesis of code, and the parentheses up
to it balance: as many are opened as are closed. -/
structure Balances (t : Text) (i c : Nat) : Prop where
  behind : i < c
  code : CodeAt t i rparen c
  balanced : Nat.count (CodeAt t i lparen) (c + 1) = Nat.count (CodeAt t i rparen) (c + 1)

/-! ### The search -/

/-- The states of the search for the parenthesis that closes the one at offset `i`: the offset where
it stops, and the number of parentheses that are open there.  It goes on behind a closing
parenthesis if others are still open. -/
inductive ClosingScan (t : Text) (i : Nat) : Nat → Nat → Prop
  | start : ClosingScan t i i 0
  | region {j d e : Nat} : ClosingScan t i j d → regionEnd? t j = some e → ClosingScan t i e d
  | opening {j d : Nat} : ClosingScan t i j d → regionEnd? t j = none → t[j]? = some lparen →
      ClosingScan t i (j + 1) (d + 1)
  | closing {j d : Nat} : ClosingScan t i j d → regionEnd? t j = none → t[j]? = some rparen →
      d - 1 ≠ 0 → ClosingScan t i (j + 1) (d - 1)
  | other {j d : Nat} {b : UInt8} : ClosingScan t i j d → regionEnd? t j = none → t[j]? = some b →
      b ≠ lparen → b ≠ rparen → ClosingScan t i (j + 1) d

section
variable {t : Text} {i j d : Nat}

/-- One step of the search over a byte of code. -/
theorem closing?_code {b : UInt8} (hend : regionEnd? t j = none) (hb : t[j]? = some b) :
    closing? d (t.drop j) =
      if b = lparen then (closing? (d + 1) (t.drop (j + 1))).map (· + 1)
      else if b = rparen then
        if d ≤ 1 then some 0 else (closing? (d - 1) (t.drop (j + 1))).map (· + 1)
      else (closing? d (t.drop (j + 1))).map (· + 1) := by
  rw [regionEnd?_eq_none_iff, Text.drop_of_getElem? hb] at hend
  rw [Text.drop_of_getElem? hb, closing?, hend]

/-- **Each state has the answer of the search.** -/
theorem ClosingScan.closingParen?_eq (h : ClosingScan t i j d) :
    closingParen? t i = (closing? d (t.drop j)).map (j + ·) := by
  have hstep (j : Nat) (o : Option Nat) : (o.map (· + 1)).map (j + ·) = o.map (j + 1 + ·) := by
    rw [Option.map_map]
    exact congrArg (o.map ·) (funext fun n => by simp only [Function.comp_apply]; omega)
  induction h with
  | start => rfl
  | @region j d e _ hend ih =>
    obtain ⟨kind, n, hr, rfl⟩ := regionEnd?_eq_some_iff.mp hend
    rw [ih, closing?_region hr, List.drop_drop, Option.map_map]
    exact congrArg (Option.map · _) (funext fun m => by simp only [Function.comp_apply]; omega)
  | opening _ hend hb ih => rw [ih, closing?_code hend hb, if_pos rfl, hstep]
  | closing _ hend hb hd ih =>
    rw [ih, closing?_code hend hb, if_neg (by decide), if_pos rfl, if_neg (by omega), hstep]
  | other _ hend hb hopen hclose ih =>
    rw [ih, closing?_code hend hb, if_neg hopen, if_neg hclose, hstep]

/-- **The search comes to its answer**: to a closing parenthesis behind which none is open, or to
the end of the text. -/
theorem ClosingScan.exists_answer (h : ClosingScan t i j d) (hj : j ≤ t.length) :
    (∃ c e, ClosingScan t i c e ∧ regionEnd? t c = none ∧ t[c]? = some rparen ∧ e - 1 = 0) ∨
      ∃ e, ClosingScan t i t.length e := by
  -- each step goes on in the text, so the induction is on what is left of it
  induction hlen : t.length - j using Nat.strongRecOn generalizing j d with
  | ind n ih =>
    subst hlen
    rcases Nat.eq_or_lt_of_le hj with rfl | hlt
    · exact .inr ⟨d, h⟩
    have hb := List.getElem?_eq_getElem hlt
    cases hend : regionEnd? t j with
    | some e =>
      obtain ⟨hpos, hle⟩ := regionEnd?_bounds hend
      exact ih _ (by omega) (h.region hend) hle rfl
    | none =>
      by_cases hopen : t[j] = lparen
      · exact ih _ (by omega) (h.opening hend (hopen ▸ hb)) hlt rfl
      by_cases hclose : t[j] = rparen
      · rw [hclose] at hb
        by_cases hd : d - 1 = 0
        · exact .inl ⟨j, d, h, hend, hb, hd⟩
        · exact ih _ (by omega) (h.closing hend hb hd) hlt rfl
      · exact ih _ (by omega) (h.other hend hb hopen hclose) hlt rfl

end

/-! ### The depth -/

/-- What is known in a state of the search: the depth is the number of parentheses that have been
opened and not closed, and nowhere behind the opening one have as many been closed as opened. -/
structure Unclosed (t : Text) (i j d : Nat) : Prop where
  le : i ≤ j
  outside : Outside (t.drop i) (j - i)
  depth : Nat.count (CodeAt t i rparen) j + d = Nat.count (CodeAt t i lparen) j
  unclosed : ∀ k, i < k → k ≤ j →
    Nat.count (CodeAt t i rparen) k < Nat.count (CodeAt t i lparen) k

section
variable {t : Text} {i j d e : Nat}

/-- Behind the opening parenthesis one is open. -/
theorem Unclosed.pos (h : Unclosed t i j d) (hij : i < j) : 0 < d := by
  have := h.unclosed j hij (Nat.le_refl j)
  have := h.depth
  omega

/-- Another byte than the opening parenthesis stands behind it. -/
theorem Unclosed.lt {b : UInt8} (h : Unclosed t i j d) (hopen : t[i]? = some lparen)
    (hb : t[j]? = some b) (hne : b ≠ lparen) : i < j := by
  refine Nat.lt_of_le_of_ne h.le ?_
  rintro rfl
  exact hne (Option.some.inj (hb.symm.trans hopen))

theorem Unclosed.start (t : Text) (i : Nat) : Unclosed t i i 0 where
  le := Nat.le_refl i
  outside := by
    rw [Nat.sub_self]
    exact outside_zero _
  depth := by rw [count_codeAt_start, count_codeAt_start]
  unclosed _ hik hki := absurd hik (Nat.not_lt.mpr hki)

theorem Unclosed.region (h : Unclosed t i j d) (hij : i < j) (hend : regionEnd? t j = some e) :
    Unclosed t i e d := by
  obtain ⟨hje, -⟩ := regionEnd?_bounds hend
  have hcount {b : UInt8} {k : Nat} := count_codeAt_region (b := b) (k := k) h.le h.outside hend
  refine ⟨by omega, ?_, ?_, fun k hik hke => ?_⟩
  · obtain ⟨kind, n, hr, rfl⟩ := regionEnd?_eq_some_iff.mp hend
    have hregion : regionAt? ((t.drop i).drop (j - i)) = some (kind, n) := by
      rwa [List.drop_drop, Nat.add_sub_cancel' h.le]
    rw [Nat.sub_add_comm h.le]
    exact h.outside.region hregion
  · rw [hcount hje.le le_rfl, hcount hje.le le_rfl]
    exact h.depth
  · rcases Nat.le_total k j with hkj | hjk
    · exact h.unclosed k hik hkj
    · -- inside the region the counts stay as they were in front of it
      rw [hcount hjk hke, hcount hjk hke]
      exact h.unclosed j hij le_rfl

/-- Over a byte of code the depth goes up or down as the counts do. -/
theorem Unclosed.byte {b : UInt8} (h : Unclosed t i j d) (hend : regionEnd? t j = none)
    (hb : t[j]? = some b) (hpos : 0 < e)
    (hdepth : (if b = rparen then 1 else 0) + e = d + if b = lparen then 1 else 0) :
    Unclosed t i (j + 1) e := by
  have hcode := codeAt_of_outside h.le h.outside hend hb
  have hd := h.depth
  have hnext : Nat.count (CodeAt t i rparen) (j + 1) + e =
      Nat.count (CodeAt t i lparen) (j + 1) := by
    rw [count_codeAt_succ hcode, count_codeAt_succ hcode]
    omega
  refine ⟨Nat.le_succ_of_le h.le, ?_, hnext, fun k hik hkj => ?_⟩
  · rw [Nat.sub_add_comm h.le]
    rw [regionEnd?_eq_none_iff, Text.drop_of_getElem? hb] at hend
    refine h.outside.code ?_ hend
    rw [List.drop_drop, Nat.add_sub_cancel' h.le, Text.drop_of_getElem? hb]
  · rcases Nat.lt_or_eq_of_le hkj with hlt | rfl
    · exact h.unclosed k hik (Nat.le_of_lt_succ hlt)
    · omega

section
variable (hopen : t[i]? = some lparen) (hcode : regionEnd? t i = none)
include hopen hcode

/-- **In each state the depth is exact**, and behind the opening parenthesis one is open. -/
theorem ClosingScan.unclosed (h : ClosingScan t i j d) : Unclosed t i j d := by
  induction h with
  | start => exact .start t i
  | @region j d e _ hend ih =>
    have hne : i ≠ j := by
      rintro rfl
      rw [hcode] at hend
      cases hend
    exact ih.region (Nat.lt_of_le_of_ne ih.le hne) hend
  | @opening j d _ hend hb ih =>
    refine ih.byte hend hb (Nat.succ_pos d) ?_
    rw [if_neg (by decide), if_pos rfl, Nat.zero_add]
  | @closing j d _ hend hb hd ih =>
    refine ih.byte hend hb (Nat.pos_of_ne_zero hd) ?_
    rw [if_pos rfl, if_neg (by decide)]
    omega
  | @other j d b _ hend hb hlparen hrparen ih =>
    -- the first step is the one over the opening parenthesis
    have hpos := ih.pos (ih.lt hopen hb hlparen)
    exact ih.byte hend hb hpos (by simp [hlparen, hrparen])

/-- At a closing parenthesis of code one is open. -/
theorem ClosingScan.pos (h : ClosingScan t i j d) (hclose : t[j]? = some rparen) : 0 < d := by
  have hstate := h.unclosed hopen hcode
  exact hstate.pos (hstate.lt hopen hclose (by decide))

/-- A closing parenthesis that leaves none open is the first up to which they balance. -/
theorem ClosingScan.isLeast (h : ClosingScan t i j d) (hend : regionEnd? t j = none)
    (hclose : t[j]? = some rparen) (hd : d - 1 = 0) : IsLeast {c | Balances t i c} j := by
  have hstate := h.unclosed hopen hcode
  have hpos := h.pos hopen hcode hclose
  have hclosing := codeAt_of_outside hstate.le hstate.outside hend hclose
  constructor
  · refine ⟨hstate.lt hopen hclose (by decide), hclosing, ?_⟩
    have hdepth := hstate.depth
    rw [count_codeAt_succ hclosing, count_codeAt_succ hclosing, if_pos rfl, if_neg (by decide)]
    omega
  · intro c hc
    by_contra hlt
    have hstrict := hstate.unclosed (c + 1) (Nat.lt_succ_of_lt hc.behind) (Nat.lt_of_not_le hlt)
    have hbalanced := hc.balanced
    omega

/-- Where the search comes to the end of the text, the parentheses balance nowhere. -/
theorem ClosingScan.not_balances (h : ClosingScan t i t.length d) (c : Nat) : ¬Balances t i c := by
  intro hc
  have hstate := h.unclosed hopen hcode
  have hlt := Text.lt_length_of_getElem? hc.code.2.1
  have hstrict := hstate.unclosed (c + 1) (Nat.lt_succ_of_lt hc.behind) hlt
  have hbalanced := hc.balanced
  omega

end

theorem regionEnd?_lparen (hopen : t[i]? = some lparen) (hstar : t[i + 1]? ≠ some asterisk) :
    regionEnd? t i = none := by
  rw [regionEnd?_eq_none_iff, Text.drop_of_getElem? hopen]
  refine regionAt?_lparen ?_
  rwa [List.getElem?_drop]

/-- **Main.** The search finds the parenthesis that closes the one at offset `i`: the first closing
parenthesis of code behind it up to which the parentheses balance.  There is no answer exactly if
they balance nowhere.  In each state of the search the depth counts what is opened and not closed,
and one is open wherever one is closed, so the depth is never taken below zero. -/
theorem closingParen?_isLeast (hopen : t[i]? = some lparen) (hstar : t[i + 1]? ≠ some asterisk) :
    (∀ c, closingParen? t i = some c ↔ IsLeast {c | Balances t i c} c) ∧
      (closingParen? t i = none ↔ ∀ c, ¬Balances t i c) ∧
      ∀ j d, ClosingScan t i j d → closingParen? t i = (closing? d (t.drop j)).map (j + ·) ∧
        Nat.count (CodeAt t i rparen) j + d = Nat.count (CodeAt t i lparen) j ∧
        (regionEnd? t j = none → t[j]? = some rparen → 0 < d) := by
  have hcode := regionEnd?_lparen hopen hstar
  have hlen := (Text.lt_length_of_getElem? hopen).le
  have hstates : ∀ j d, ClosingScan t i j d →
      closingParen? t i = (closing? d (t.drop j)).map (j + ·) ∧
        Nat.count (CodeAt t i rparen) j + d = Nat.count (CodeAt t i lparen) j ∧
        (regionEnd? t j = none → t[j]? = some rparen → 0 < d) := fun j d h =>
    ⟨h.closingParen?_eq, (h.unclosed hopen hcode).depth, fun _ hclose => h.pos hopen hcode hclose⟩
  rcases (ClosingScan.start (t := t) (i := i)).exists_answer hlen with
    ⟨c, d, hscan, hend, hclose, hd⟩ | ⟨d, hscan⟩
  · -- the search stops at a parenthesis that leaves none open
    have hleast := hscan.isLeast hopen hcode hend hclose hd
    have hanswer : closingParen? t i = some c := by
      rw [hscan.closingParen?_eq, closing?_code hend hclose, if_neg (by decide), if_pos rfl,
        if_pos (by omega)]
      rfl
    refine ⟨fun c' => ?_, ?_, hstates⟩
    · rw [hanswer, Option.some.injEq]
      exact ⟨fun h => h ▸ hleast, fun h => hleast.unique h⟩
    · rw [hanswer]
      exact ⟨fun h => absurd h (Option.some_ne_none c), fun h => absurd hleast.1 (h c)⟩
  · -- the search has come to the end of the text
    have hnone := hscan.not_balances hopen hcode
    have hanswer : closingParen? t i = none := by
      rw [hscan.closingParen?_eq, List.drop_length, closing?]
      rfl
    refine ⟨fun c => ?_, ?_, hstates⟩
    · rw [hanswer]
      exact ⟨fun h => absurd h.symm (Option.some_ne_none c), fun h => absurd h.1 (hnone c)⟩
    · exact ⟨fun _ => hnone, fun _ => hanswer⟩

end

/-- Parentheses in parentheses, in a literal and in a comment. -/
def nestedCall : Text := "f(a, ')', (b)\x7b)\x7d) + 1"

theorem closingParen?_nestedCall :
    nestedCall[1]? = some lparen ∧ nestedCall[2]? ≠ some asterisk ∧
      closingParen? nestedCall 1 = some 16 ∧ IsLeast {c | Balances nestedCall 1 c} 16 := by
  have hopen : nestedCall[1]? = some lparen := by decide
  have hstar : nestedCall[2]? ≠ some asterisk := by decide
  have hanswer : closingParen? nestedCall 1 = some 16 := by decide +kernel
  exact ⟨hopen, hstar, hanswer, ((closingParen?_isLeast hopen hstar).1 16).mp hanswer⟩

end PascalSurvey.Source
