/-
PascalSurvey/Proofs/Routine/Seam.lean

Routines in front of another text.  What is read in a text that ends with a semicolon and a
line break is read in the same way when a text `b` is put behind it, if the two make a
`Seam`: no parameter list is open at the end of the first text, the second one begins with no
directive, and a walk that comes to its beginning is cut there.

A walk that would have been cut at the end of the first text is then cut at the same offset,
at the beginning of the second one (`Seam.walks`), and a search that finds no header before
the end goes on there (`Seam.find?`).
-/
import PascalSurvey.Proofs.Routine.Shift

namespace PascalSurvey.Routine

open Ascii Source

/-- Nothing that begins in `x` reaches over the line break into `b`. -/
structure Seam (x b : Text) : Prop where
  closed : ∀ j, x[j]? = some lparen → (closing? 0 ((joined x []).drop j)).isSome
  fresh : Fresh b
  noDirective : Header.directive? (newline :: b) = none
  cut : ∀ s : Body.State, s.pendingClass = none →
    Body.Walks b 0 s ⟨0, false, s.suspended = 0 ∧ 0 < s.depth⟩

variable {x b : Text} {q : Nat}

/-! ### Offsets -/

theorem drop_joined_of_le (hq : q ≤ x.length) (b : Text) :
    (joined x b).drop q = x.drop q ++ semicolon :: newline :: b :=
  drop_before hq _

theorem getElem?_joined_of_lt (hq : q < x.length + 2) (b : Text) :
    (joined x b)[q]? = (joined x [])[q]? := by
  rw [joined_eq_append, List.getElem?_append_left (by rw [length_joined]; exact hq)]

theorem ofOffset_joined_of_le (hq : q ≤ x.length) (b : Text) :
    Cursor.ofOffset (joined x b) q =
      ⟨q, (x.take q).reverse, x.drop q ++ semicolon :: newline :: b⟩ := by
  rw [Cursor.ofOffset_eq, length_joined, Nat.min_eq_left (by omega), drop_joined_of_le hq, joined,
    List.take_append_of_le_length hq]

/-! ### Headers -/

namespace Header

theorem candidate?_before (hq : q ≤ x.length) (b : Text) :
    candidate? (Cursor.ofOffset (joined x b) q) = candidate? (Cursor.ofOffset (joined x []) q) ∧
      ∀ c, candidate? (Cursor.ofOffset (joined x []) q) = some c → c.size ≤ (x.drop q).length := by
  rw [ofOffset_joined_of_le hq, ofOffset_joined_of_le hq]
  unfold candidate?
  split
  · exact ⟨rfl, fun c hc => nomatch hc⟩
  · rw [(words?_before (x.drop q) (newline :: b)).1, (words?_before (x.drop q) [newline]).1]
    exact ⟨rfl, (words?_before (x.drop q) []).2⟩

/-- No candidate begins with the line break. -/
theorem candidate?_at_break (x b : Text) :
    candidate? (Cursor.ofOffset (joined x b) (x.length + 1)) = none := by
  unfold candidate?
  split
  · rfl
  · rw [Cursor.after_ofOffset]
    rcases hw : words? ((joined x b).drop (x.length + 1)) with - | c
    · rfl
    · have hletter := (words?_head hw).1
      rw [List.getElem?_drop, joined, Nat.add_zero, List.getElem?_append_right (Nat.le_add_right _ _),
        Nat.add_sub_cancel_left] at hletter
      exact absurd (show isLetter newline = true from hletter) (by decide)

end Header

namespace Seam

theorem ofCandidate? (h : Seam x b) (hq : q ≤ x.length)
    {c : Header.Candidate} (hc : c.size ≤ (x.drop q).length) :
    Header.ofCandidate? (Cursor.ofOffset (joined x b) q) c =
      Header.ofCandidate? (Cursor.ofOffset (joined x []) q) c := by
  rw [ofOffset_joined_of_le hq, ofOffset_joined_of_le hq]
  refine Header.ofCandidate?_before hc (fun j hj => ?_) h.noDirective
  have hlt : q + j < x.length := by
    rw [List.head?_drop, List.getElem?_drop] at hj
    exact Text.lt_length_of_getElem? hj
  have := h.closed (q + j) (by rw [List.head?_drop, List.getElem?_drop] at hj; exact hj)
  rw [drop_joined_of_le (Nat.le_of_lt hlt), ← List.drop_drop] at this
  exact this

theorem atPlace? (h : Seam x b) (hq : q ≤ x.length) :
    Header.atPlace? (Cursor.ofOffset (joined x b) q) =
      Header.atPlace? (Cursor.ofOffset (joined x []) q) := by
  have hbare (v : Text) : Header.bare? (x.drop q ++ semicolon :: v) =
      Header.bare? (x.drop q ++ [semicolon]) := (Header.bare?_before (x.drop q) v).1
  unfold Header.atPlace?
  simp only [Cursor.before_ofOffset, Cursor.after_ofOffset, drop_joined_of_le hq, hbare]
  have htake (b : Text) : (joined x b).take q = x.take q := List.take_append_of_le_length hq
  rw [htake, htake]
  split
  · rfl
  · rcases hc : Header.bare? (x.drop q ++ [semicolon]) with - | c
    · rfl
    · exact h.ofCandidate? hq ((Header.bare?_before (x.drop q) []).2 c hc)

/-- A search that finds nothing before the end goes on behind it. -/
theorem find? (h : Seam x b) {p : Nat} (hp : p ≤ x.length + 2) :
    Header.find? (joined x b) p =
      (Header.find? (joined x []) p <|> Header.find? (joined x b) (x.length + 2)) := by
  induction hlen : x.length + 2 - p using Nat.strongRecOn generalizing p with
  | ind n ih =>
    subst hlen
    rcases Nat.eq_or_lt_of_le hp with rfl | hp
    · have hnone : Header.find? (joined x []) (x.length + 2) = none := by
        rw [Header.find?_eq, if_neg (by simp)]
      rw [hnone]
      rfl
    · rw [Header.find?_eq, Header.find?_eq (joined x []), length_joined, length_joined,
        if_pos (by omega), if_pos (by rw [List.length_nil]; omega)]
      rcases Nat.lt_or_ge x.length p with hgt | hle
      · -- at the line break
        obtain rfl : p = x.length + 1 := by omega
        rw [Header.candidate?_at_break x b, Header.candidate?_at_break x []]
        exact ih _ (by omega) (by omega) rfl
      · obtain ⟨hsame, hsize⟩ := Header.candidate?_before hle b
        rw [hsame]
        rcases hc : Header.candidate? (Cursor.ofOffset (joined x []) p) with - | c
        · exact ih _ (by omega) (by omega) rfl
        · have hc' := hsize c hc
          rw [List.length_drop] at hc'
          have hrest := ih _ (by omega) (p := p + max 1 c.size) (by omega) rfl
          dsimp only
          rw [h.ofCandidate? hle (hsize c hc), hrest]
          cases Header.ofCandidate? (Cursor.ofOffset (joined x []) p) c <;> rfl

end Seam

/-! ### Words -/

namespace Body

theorem wordStart_before (hq : q < x.length + 2) (b : Text) :
    wordStart (joined x b) q = wordStart (joined x []) q := by
  have hbefore : byteBefore? (joined x b) q = byteBefore? (joined x []) q := by
    cases q with
    | zero => rfl
    | succ q => exact getElem?_joined_of_lt (Nat.lt_of_succ_lt hq) b
  rw [wordStart, wordStart, getElem?_joined_of_lt hq, hbefore]

/-- A word that begins before the line break begins before the semicolon. -/
theorem lt_of_wordStart (hq : q < x.length + 2) (h : wordStart (joined x []) q = true) :
    q < x.length := by
  obtain ⟨c, hc, hid⟩ := getElem?_of_wordStart h
  rcases Nat.lt_or_ge q x.length with hlt | hge
  · exact hlt
  · obtain ⟨i, rfl⟩ := Nat.exists_eq_add_of_le hge
    rw [joined, List.getElem?_append_right hge, Nat.add_sub_cancel_left] at hc
    rcases i with - | - | i
    · obtain rfl : semicolon = c := Option.some.inj hc
      exact absurd hid (by decide)
    · obtain rfl : newline = c := Option.some.inj hc
      exact absurd hid (by decide)
    · omega

theorem words_before {p : Nat} (hq : q ≤ x.length + 2) (b : Text) :
    words (joined x b) p q = words (joined x []) p q := by
  refine List.filter_congr fun i hi => wordStart_before ?_ b
  rw [List.mem_range'_1] at hi
  omega

theorem clear_before {p : Nat} (hq : q ≤ x.length + 2) (b : Text) :
    clear (joined x b) p q = clear (joined x []) p q := by
  rw [Bool.eq_iff_iff, clear_iff, clear_iff]
  constructor
  · intro h i c hi hlt hc
    exact h i c hi hlt (by rw [getElem?_joined_of_lt (by omega)]; exact hc)
  · intro h i c hi hlt hc
    exact h i c hi hlt (by rw [getElem?_joined_of_lt (by omega)] at hc; exact hc)

theorem across_before {p : Nat} (hq : q ≤ x.length + 2) (b : Text) (s : State) :
    s.across (joined x b) p q = s.across (joined x []) p q := by
  rw [State.across, clear_before hq, State.across]

theorem identRun_drop_before (hq : q ≤ x.length) (b : Text) :
    identRun ((joined x b).drop q) = identRun (x.drop q) ∧ identRun (x.drop q) ≤ x.length - q := by
  obtain ⟨hsame, hle⟩ := Header.identRun_before (x.drop q) (newline :: b)
  rw [List.length_drop] at hle
  exact ⟨by rw [drop_joined_of_le hq, hsame], hle⟩

theorem wordEnd_before (hq : q ≤ x.length) (b : Text) :
    wordEnd (joined x b) q = wordEnd (joined x []) q ∧ wordEnd (joined x []) q ≤ x.length := by
  obtain ⟨hsame, hle⟩ := identRun_drop_before hq b
  rw [wordEnd, wordEnd, hsame, (identRun_drop_before hq []).1]
  exact ⟨rfl, by omega⟩

theorem wordAt_before (hq : q ≤ x.length) (b : Text) :
    wordAt (joined x b) q = wordAt (joined x []) q := by
  have htake (v : Text) : ((joined x v).drop q).take (identRun (x.drop q)) =
      (x.drop q).take (identRun (x.drop q)) := by
    rw [drop_joined_of_le hq, List.take_append_of_le_length (identRun_le _)]
  rw [wordAt, wordAt, (identRun_drop_before hq b).1, (identRun_drop_before hq []).1, htake, htake]

theorem closeAt_before (hq : q ≤ x.length) (b : Text) :
    closeAt (joined x b) q = closeAt (joined x []) q := by
  have hthrough (v : Text) : throughSemicolon? (x.drop q ++ semicolon :: v) =
      throughSemicolon? (x.drop q ++ [semicolon]) := by
    have hle := (Header.blankRun_before (x.drop q) v).2
    unfold throughSemicolon?
    rw [(Header.blankRun_before (x.drop q) v).1, (Header.blankRun_before (x.drop q) []).1]
    rcases Nat.eq_or_lt_of_le hle with heq | hlt
    · rw [heq, List.getElem?_append_right (Nat.le_refl _), List.getElem?_append_right (Nat.le_refl _)]
      simp
    · rw [List.getElem?_append_left hlt, List.getElem?_append_left hlt]
  rw [closeAt, closeAt, drop_joined_of_le hq, drop_joined_of_le hq, hthrough, hthrough [newline]]

end Body

/-! ### Bodies -/

namespace Seam

open Body

theorem headerAt (h : Seam x b) (hq : q ≤ x.length) :
    Body.headerAt (joined x b) q = Body.headerAt (joined x []) q := by
  unfold Body.headerAt
  rw [wordAt_before hq, h.atPlace? hq]

theorem moveAt (h : Seam x b) (hq : q ≤ x.length) (s : State) :
    Body.moveAt (joined x b) q s = Body.moveAt (joined x []) q s := by
  unfold Body.moveAt
  rw [wordAt_before hq, (wordEnd_before hq b).1, closeAt_before (wordEnd_before hq b).2,
    h.headerAt hq]
  cases hword : wordAt (joined x []) q with
  | opener | closer | classWord | other => rfl
  | routine kind =>
    rcases hh : Body.headerAt (joined x []) q with - | hd
    · rfl
    · -- neither limit is reached by the header
      obtain ⟨-, -, -, hloc⟩ := headerAt_located (by rw [length_joined]; omega) hh
      have hstop := hloc.stop_le
      have hend := hloc.end_le
      have hlen : (joined x []).length ≤ (joined x b).length := by
        rw [length_joined, length_joined, List.length_nil]
        omega
      simp only [afterWord]
      rw [Nat.min_eq_left hend, Nat.min_eq_left (Nat.le_trans hstop hend),
        Nat.min_eq_left (Nat.le_trans hend hlen),
        Nat.min_eq_left (Nat.le_trans hstop (Nat.le_trans hend hlen))]

end Seam

namespace Body

/-- Where a walk goes on in a text, no `class` is pending behind the last semicolon. -/
theorem moveAt_before (hq : q ≤ x.length) {s s' : State} {o : Nat}
    (h : moveAt (joined x []) q s = .goOn o s') :
    o ≤ x.length + 2 ∧ (s'.pendingClass = none ∨ o ≤ x.length) := by
  have hend := (wordEnd_before hq []).2
  have hclose : closeAt (joined x []) (wordEnd (joined x []) q) ≤ x.length + 2 := by
    have := closeAt_le (m := joined x []) (e := wordEnd (joined x []) q)
    rw [length_joined, List.length_nil] at this
    exact this (by omega)
  unfold moveAt at h
  split at h
  · split at h
    · split at h
      · cases h
      · cases h
        exact ⟨hclose, .inl rfl⟩
    · cases h
      exact ⟨by omega, .inr hend⟩
  · rcases afterWord_goOn h with rfl | ⟨hnone, ho⟩
    · exact ⟨by omega, .inr hend⟩
    · -- behind a header, and behind its directives, nothing is pending
      refine ⟨?_, .inl hnone⟩
      rw [length_joined, List.length_nil, semicolonAfter?] at ho
      rcases ho with rfl | ⟨hd, -, rfl | rfl⟩
      · show wordEnd (joined x []) q ≤ x.length + 2
        omega
      · exact Nat.min_le_right _ _
      · exact Nat.min_le_right _ _

/-- A `class` before the last semicolon is not pending behind it. -/
theorem across_to_end {p : Nat} {s : State} (hs : s.pendingClass = none ∨ p ≤ x.length) (b : Text) :
    (s.across (joined x b) p (x.length + 2)).pendingClass = none := by
  unfold State.across
  split
  · next hclear =>
    rcases hs with hs | hp
    · exact hs
    · have hsemi : (joined x b)[x.length]? = some semicolon := by
        rw [joined, List.getElem?_append_right (Nat.le_refl _), Nat.sub_self]
        rfl
      exact absurd (clear_iff.mp hclear _ _ hp (by omega) hsemi) (by decide)
  · rfl

end Body

/-- **A walk does not reach over the seam.**  One that comes to the end of the first text is cut
there, as it would be with nothing behind. -/
theorem Seam.walks (h : Seam x b) {p : Nat} {s : Body.State} {r : BodyScan}
    (hw : Body.Walks (joined x []) p s r) (hp : p ≤ x.length + 2)
    (hs : s.pendingClass = none ∨ p ≤ x.length) : Body.Walks (joined x b) p s r := by
  have hlength : (joined x []).length = x.length + 2 := length_joined x []
  have hlen : x.length + 2 ≤ (joined x b).length := by
    rw [length_joined]
    omega
  -- the first word is the same one
  have hfirst {p q : Nat} {vs : List Nat} (hp : p ≤ x.length + 2)
      (hw : Body.words (joined x []) p (joined x []).length = q :: vs) :
      (∃ vs', Body.words (joined x b) p (joined x b).length = q :: vs') ∧ q < x.length := by
    rw [hlength] at hw
    obtain ⟨-, hq, hstart, -⟩ := Body.words_first hw
    refine ⟨⟨vs ++ Body.words (joined x b) (x.length + 2) (joined x b).length, ?_⟩,
      Body.lt_of_wordStart hq hstart⟩
    rw [← Body.words_append _ hp hlen, Body.words_before (Nat.le_refl _), hw, List.cons_append]
  induction hw with
  | @done p s hnil =>
    -- no word is left before the seam, and the walk is cut at the first word behind it
    rw [hlength] at hnil ⊢
    have hnone := Body.across_to_end hs b
    refine .skip hp hlen (by rw [Body.words_before (Nat.le_refl _), hnil]) ?_
    have hcut := (h.cut _ hnone).behind x h.fresh
    have hstate : (s.across (joined x b) p (x.length + 2)).shift (x.length + 2) =
        s.across (joined x b) p (x.length + 2) := by
      rw [Body.State.shift, hnone, Option.map_none, ← hnone]
    rw [hstate, Body.State.across_suspended, Body.State.across_depth] at hcut
    exact hcut
  | halt hw hmove =>
    obtain ⟨⟨vs', hw'⟩, hq⟩ := hfirst hp hw
    refine .halt hw' ?_
    rw [Body.across_before (by omega), h.moveAt (Nat.le_of_lt hq), hmove]
  | goOn hw hmove _ ih =>
    obtain ⟨⟨vs', hw'⟩, hq⟩ := hfirst hp hw
    obtain ⟨ho, hs'⟩ := Body.moveAt_before (Nat.le_of_lt hq) hmove
    refine .goOn hw' ?_ (ih ho hs')
    rw [Body.across_before (by omega), h.moveAt (Nat.le_of_lt hq), hmove]

end PascalSurvey.Routine
