/-
PascalSurvey/Proofs/Source/TopLevel.lean

Cutting at the separators that stand at the top level.  `BracketScan t i d` is the scan from left to
right that steps over a literal as a whole and counts the brackets outside literals: it stops at
offset `i` with `d` of them open.  What the splitting has cut off by then is the invariant of the
scan (`CutUpTo`): the items that are finished, the beginning of the one that is not, and that each
cut was made at a separator where the scan stopped at depth zero.

At the end of the text the invariant accounts for all cuts, and at a separator of the top level it
gives the cut that is made there.  Main result: `isCut_iff`.
-/
import PascalSurvey.Proofs.Source.Split

namespace PascalSurvey.Source

open Ascii

/-! ### The scan -/

/-- What a byte outside literals adds to the number of open brackets. -/
def bracketStep (b : UInt8) : Int :=
  if b = lparen ∨ b = lbracket then 1 else if b = rparen ∨ b = rbracket then -1 else 0

/-- The offsets where a scan stops that steps over literals as wholes, each with the number of
brackets that are open there.  The number is below zero where too many have been closed. -/
inductive BracketScan (t : Text) : Nat → Int → Prop
  | start : BracketScan t 0 0
  | literal {i : Nat} {d : Int} :
      BracketScan t i d → t[i]? = some quote → BracketScan t (literalEnd t i) d
  | byte {i : Nat} {d : Int} {b : UInt8} :
      BracketScan t i d → t[i]? = some b → b ≠ quote → BracketScan t (i + 1) (d + bracketStep b)

section
variable {t : Text} {i : Nat} {d : Int}

theorem literalEnd_eq (h : t[i]? = some quote) :
    literalEnd t i = i + 1 + literalTail (t.drop (i + 1)) := by
  have hlt := Text.lt_length_of_getElem? h
  unfold literalEnd
  split
  · rfl
  · next hend =>
    rw [List.drop_eq_nil_of_le (Nat.le_of_not_lt hend)]
    show t.length = i + 1
    omega

/-- A literal ends behind its opening quote, and within the text. -/
theorem literalEnd_bounds (h : t[i]? = some quote) :
    i < literalEnd t i ∧ literalEnd t i ≤ t.length := by
  have hle := literalTail_le (t.drop (i + 1))
  have hlt := Text.lt_length_of_getElem? h
  rw [List.length_drop] at hle
  rw [literalEnd_eq h]
  omega

theorem BracketScan.le_length (h : BracketScan t i d) : i ≤ t.length := by
  induction h with
  | start => exact Nat.zero_le _
  | literal _ hi _ => exact (literalEnd_bounds hi).2
  | byte _ hi _ _ => exact Text.lt_length_of_getElem? hi

/-- The scan goes on to the end of the text. -/
theorem BracketScan.exists_end (h : BracketScan t i d) : ∃ e, BracketScan t t.length e := by
  induction hlen : t.length - i using Nat.strongRecOn generalizing i d with
  | ind n ih =>
    subst hlen
    rcases Nat.eq_or_lt_of_le h.le_length with rfl | hlt
    · exact ⟨d, h⟩
    · have hi := List.getElem?_eq_getElem hlt
      by_cases hquote : t[i] = quote
      · rw [hquote] at hi
        obtain ⟨hpos, -⟩ := literalEnd_bounds hi
        exact ih _ (by omega) (h.literal hi) rfl
      · exact ih _ (by omega) (h.byte hi hquote) rfl

end

/-! ### One step of the splitting -/

section
variable {sep b : UInt8} {d : Int}

/-- A byte that is no separator of the top level goes in front of the item behind it. -/
theorem splitTopLevelFrom_byte (hquote : b ≠ quote) (hsep : ¬(b = sep ∧ bracketStep b = 0 ∧ d = 0))
    (r : Text) : splitTopLevelFrom d sep (b :: r) =
      onFirst [b] (splitTopLevelFrom (d + bracketStep b) sep r) := by
  unfold bracketStep at hsep ⊢
  rw [splitTopLevelFrom, if_neg hquote]
  split
  · rfl
  · next hopen =>
    rw [if_neg hopen] at hsep
    split
    · rfl
    · next hclose =>
      rw [if_neg hclose] at hsep
      rw [if_neg (fun h => hsep ⟨h.1, rfl, h.2⟩), Int.add_zero]

/-- A separator of the top level ends an item. -/
theorem splitTopLevelFrom_sep (hquote : sep ≠ quote) (hstep : bracketStep sep = 0) (r : Text) :
    splitTopLevelFrom 0 sep (sep :: r) = [] :: splitTopLevelFrom 0 sep r := by
  have hopen : ¬(sep = lparen ∨ sep = lbracket) := by
    rintro (rfl | rfl) <;> cases hstep
  have hclose : ¬(sep = rparen ∨ sep = rbracket) := by
    rintro (rfl | rfl) <;> cases hstep
  rw [splitTopLevelFrom, if_neg hquote, if_neg hopen, if_neg hclose, if_pos ⟨rfl, rfl⟩]

end

/-! ### What has been cut -/

/-- Joining one item more. -/
theorem join_concat (sep : Text) {ps : List Text} (h : ps ≠ []) (q : Text) :
    Text.join sep (ps ++ [q]) = Text.join sep ps ++ (sep ++ q) := by
  induction ps with
  | nil => exact absurd rfl h
  | cons p ps ih =>
    cases ps with
    | nil => simp [Text.join]
    | cons p' ps =>
      have := ih (List.cons_ne_nil p' ps)
      simp only [Text.join, List.cons_append, List.intercalate_cons_cons, List.append_assoc]
        at this ⊢
      rw [this]

theorem join_concat_append (sep : Text) (ps : List Text) (q s : Text) :
    Text.join sep (ps ++ [q ++ s]) = Text.join sep (ps ++ [q]) ++ s := by
  cases ps with
  | nil => simp [Text.join]
  | cons p ps =>
    rw [join_concat sep (List.cons_ne_nil p ps), join_concat sep (List.cons_ne_nil p ps)]
    simp only [List.append_assoc]

/-- At the offset `i` the text is cut: the items before the cut, joined, are as long. -/
def IsCut (sep : UInt8) (t : Text) (i : Nat) : Prop :=
  ∃ front back, front ≠ [] ∧ back ≠ [] ∧ splitTopLevel sep t = front ++ back ∧
    (Text.join [sep] front).length = i

/-- What has been cut when the scan stops at offset `i` with `d` brackets open: the items that are
finished, and the beginning of the next. -/
structure CutUpTo (sep : UInt8) (t : Text) (i : Nat) (d : Int) (front : List Text) (item : Text) :
    Prop where
  split : splitTopLevel sep t = front ++ onFirst item (splitTopLevelFrom d sep (t.drop i))
  joined : Text.join [sep] (front ++ [item]) = t.take i
  atSeparator : ∀ k, 0 < k → k ≤ front.length →
    t[(Text.join [sep] (front.take k)).length]? = some sep ∧
      BracketScan t (Text.join [sep] (front.take k)).length 0

section
variable {sep : UInt8} {t : Text} {i j : Nat} {d e : Int} {front : List Text} {item : Text}

/-- A part of the text without a cut goes to the item that is not finished. -/
theorem CutUpTo.extend {s : Text} (h : CutUpTo sep t i d front item)
    (htake : t.take j = t.take i ++ s)
    (hsplit : splitTopLevelFrom d sep (t.drop i) = onFirst s (splitTopLevelFrom e sep (t.drop j))) :
    CutUpTo sep t j e front (item ++ s) where
  split := by rw [h.split, hsplit, onFirst_onFirst]
  joined := by rw [join_concat_append, h.joined, htake]
  atSeparator := h.atSeparator

theorem take_succ_of_getElem? {b : UInt8} (h : t[i]? = some b) :
    t.take (i + 1) = t.take i ++ [b] := by
  rw [List.take_add_one, h]
  rfl

/-- A literal is not cut. -/
theorem CutUpTo.literal (h : CutUpTo sep t i d front item) (hi : t[i]? = some quote) :
    ∃ item', CutUpTo sep t (literalEnd t i) d front item' := by
  have hdrop := Text.drop_of_getElem? hi
  refine ⟨_, h.extend (s := quote :: (t.drop (i + 1)).take (literalTail (t.drop (i + 1)))) ?_ ?_⟩
  · rw [literalEnd_eq hi, List.take_add, take_succ_of_getElem? hi, List.append_assoc]
    rfl
  · rw [literalEnd_eq hi, hdrop, keepsLiterals_splitTopLevelFrom d sep, List.drop_drop]

/-- Nor is the text cut at a byte that is no separator of the top level. -/
theorem CutUpTo.byte {b : UInt8} (h : CutUpTo sep t i d front item) (hi : t[i]? = some b)
    (hquote : b ≠ quote) (hsep : ¬(b = sep ∧ bracketStep b = 0 ∧ d = 0)) :
    CutUpTo sep t (i + 1) (d + bracketStep b) front (item ++ [b]) := by
  apply h.extend (take_succ_of_getElem? hi)
  rw [Text.drop_of_getElem? hi, splitTopLevelFrom_byte hquote hsep]

/-- At a separator of the top level the item is finished. -/
theorem CutUpTo.cut (h : CutUpTo sep t i 0 front item) (hscan : BracketScan t i 0)
    (hi : t[i]? = some sep) (hquote : sep ≠ quote) (hstep : bracketStep sep = 0) :
    CutUpTo sep t (i + 1) 0 (front ++ [item]) [] where
  split := by
    rw [h.split, Text.drop_of_getElem? hi, splitTopLevelFrom_sep hquote hstep,
      onFirst_nil (splitTopLevelFrom_ne_nil _ _ _), List.append_assoc]
    simp [onFirst]
  joined := by
    rw [join_concat _ (by simp), h.joined, take_succ_of_getElem? hi, List.append_nil]
  atSeparator k hpos hk := by
    rw [List.length_append, List.length_singleton] at hk
    rcases Nat.lt_or_ge front.length k with hlt | hle
    · -- the new cut
      have hlen : (t.take i).length = i := by
        rw [List.length_take, Nat.min_eq_left hscan.le_length]
      rw [List.take_of_length_le (by simp; omega), h.joined, hlen]
      exact ⟨hi, hscan⟩
    · rw [List.take_append_of_le_length hle]
      exact h.atSeparator k hpos hle

/-- **What has been cut is known wherever the scan stops.** -/
theorem BracketScan.cutUpTo (sep : UInt8) (h : BracketScan t i d) :
    ∃ front item, CutUpTo sep t i d front item := by
  induction h with
  | start =>
    refine ⟨[], [], ?_, by simp [Text.join], fun k hpos hk => by simp at hk; omega⟩
    rw [List.drop_zero, onFirst_nil (splitTopLevelFrom_ne_nil _ _ _)]
    rfl
  | literal _ hi ih =>
    obtain ⟨front, item, hcut⟩ := ih
    obtain ⟨item', hcut'⟩ := hcut.literal hi
    exact ⟨front, item', hcut'⟩
  | @byte i d b hscan hi hquote ih =>
    obtain ⟨front, item, hcut⟩ := ih
    by_cases hsep : b = sep ∧ bracketStep b = 0 ∧ d = 0
    · obtain ⟨rfl, hstep, rfl⟩ := hsep
      rw [hstep, Int.add_zero]
      exact ⟨_, _, hcut.cut hscan hi hquote hstep⟩
    · exact ⟨_, _, hcut.byte hi hquote hsep⟩

/-- **A text is cut at the separators of the top level**, and nowhere else. -/
theorem isCut_iff (hquote : sep ≠ quote) (hstep : bracketStep sep = 0) :
    IsCut sep t i ↔ t[i]? = some sep ∧ BracketScan t i 0 := by
  constructor
  · rintro ⟨xs, ys, hxs, hys, hsplit, rfl⟩
    -- at the end of the text all cuts have been made
    obtain ⟨e, hend⟩ := (BracketScan.start (t := t)).exists_end
    obtain ⟨front, item, hcut⟩ := hend.cutUpTo sep
    have hwhole := hcut.split
    rw [List.drop_length, splitTopLevelFrom, hsplit] at hwhole
    change xs ++ ys = front ++ [item ++ []] at hwhole
    have hlen : xs.length ≤ front.length := by
      have := congrArg List.length hwhole
      have hpos := List.length_pos_iff.mpr hys
      simp only [List.length_append, List.length_singleton] at this
      omega
    have htake : xs = front.take xs.length := by
      have := congrArg (List.take xs.length) hwhole
      rwa [List.take_left, List.take_append_of_le_length hlen] at this
    rw [htake]
    exact hcut.atSeparator xs.length (List.length_pos_iff.mpr hxs) hlen
  · rintro ⟨hi, hscan⟩
    obtain ⟨front, item, hcut⟩ := hscan.cutUpTo sep
    have hnext := (hcut.cut hscan hi hquote hstep).split
    rw [onFirst_nil (splitTopLevelFrom_ne_nil _ _ _)] at hnext
    refine ⟨front ++ [item], _, by simp, splitTopLevelFrom_ne_nil _ _ _, hnext, ?_⟩
    rw [hcut.joined, List.length_take, Nat.min_eq_left hscan.le_length]

end

end PascalSurvey.Source
