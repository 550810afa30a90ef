/-
PascalSurvey/Proofs/Routine/Shift.lean

Routines further down in a text.  `joined x b` is the text `b` behind a text `x` whose last line
ends with a semicolon.  If `b` begins with a letter, everything that is read in `b` is read in
`joined x b` as well, `x.length + 2` bytes further on: words, headers and walks look back over
the beginning of `b` only to find the line break or the semicolon there, which say the same as
the beginning of a text.
-/
import PascalSurvey.Proofs.Routine.Local
import PascalSurvey.Proofs.Routine.Overlaid
import PascalSurvey.Proofs.Text.Spelling

namespace PascalSurvey.Routine

open Ascii Source

/-- The text `b` on the line after `x` and a semicolon. -/
def joined (x b : Text) : Text := x ++ semicolon :: newline :: b

/-- A text is empty or begins with a letter. -/
def Fresh (b : Text) : Prop := ∀ c r, b = c :: r → isLetter c = true

variable {x b : Text}

/-! ### Offsets -/

@[simp] theorem length_joined (x b : Text) : (joined x b).length = x.length + 2 + b.length := by
  simp only [joined, List.length_append, List.length_cons]
  omega

theorem joined_eq_append (x b : Text) : joined x b = joined x [] ++ b := by
  simp [joined]

theorem drop_joined (x b : Text) (i : Nat) : (joined x b).drop (x.length + 2 + i) = b.drop i := by
  rw [joined, Nat.add_assoc, ← List.drop_drop, List.drop_left, ← List.drop_drop]
  rfl

theorem take_joined (x b : Text) (i : Nat) :
    (joined x b).take (x.length + 2 + i) = joined x (b.take i) := by
  rw [joined, Nat.add_assoc, List.take_append, List.take_of_length_le (Nat.le_add_right _ _),
    Nat.add_sub_cancel_left, Nat.add_comm 2]
  rfl

theorem getElem?_joined (x b : Text) (i : Nat) : (joined x b)[x.length + 2 + i]? = b[i]? := by
  rw [← List.head?_drop, drop_joined, List.head?_drop]

theorem reverse_joined (x u : Text) :
    (joined x u).reverse = u.reverse ++ newline :: semicolon :: x.reverse := by
  simp [joined]

theorem slice_joined (x b : Text) (s e : Nat) :
    Text.slice (joined x b) (x.length + 2 + s) (x.length + 2 + e) = Text.slice b s e := by
  rw [Text.slice, Text.slice, drop_joined, show x.length + 2 + e - (x.length + 2 + s) = e - s by omega]

theorem Fresh.take (h : Fresh b) (i : Nat) : Fresh (b.take i) := by
  intro c r hcr
  cases b with
  | nil =>
    rw [List.take_nil] at hcr
    cases hcr
  | cons c' b =>
    cases i with
    | zero => cases hcr
    | succ i =>
      rw [List.take_succ_cons] at hcr
      rw [← (List.cons.inj hcr).1]
      exact h c' b rfl

/-! ### Looking back -/

theorem isContinuation_of_isLetter {c : UInt8} (h : isLetter c = true) :
    Utf8.isContinuation c = false := by
  have hascii := (isIdentByte_ascii (show isIdentByte c = true by simp [isIdentByte, h])).2
  cases hcont : Utf8.isContinuation c with
  | false => rfl
  | true => exact absurd hascii (UInt8.not_lt.mpr (Utf8.le_of_isContinuation hcont))

/-- Before the first letter the line break stands for the beginning of the text. -/
theorem endsWord_joined (x : Text) {u : Text} (h : Fresh u) :
    Text.endsWord (joined x u).reverse = Text.endsWord u.reverse := by
  rw [reverse_joined]
  cases u with
  | nil =>
    show (Utf8.last? ([] ++ newline :: _)).any isWordChar = _
    rw [Utf8.last?_append (by decide)]
    decide +kernel
  | cons c u =>
    have hc := isContinuation_of_isLetter (h c u rfl)
    rw [List.reverse_cons, List.append_assoc]
    show (Utf8.last? (u.reverse ++ c :: _)).any isWordChar = (Utf8.last? _).any isWordChar
    rw [Utf8.last?_append hc]

/-- Blanks are skipped up to the first byte that is none. -/
theorem dropWhile_append_cons {p : UInt8 → Bool} {c : UInt8} (hc : p c = false) (u : Text) :
    ∃ d w, ∀ v, (u ++ c :: v).dropWhile p = d :: (w ++ v) := by
  induction u with
  | nil => exact ⟨c, [], fun v => by simp [hc]⟩
  | cons a u ih =>
    cases ha : p a with
    | true =>
      obtain ⟨d, w, h⟩ := ih
      exact ⟨d, w, fun v => by rw [List.cons_append, List.dropWhile_cons_of_pos ha, h v]⟩
    | false => exact ⟨a, u ++ [c], fun v => by simp [ha]⟩

theorem mayStartAfter_joined (x : Text) {u : Text} (h : Fresh u) :
    Header.mayStartAfter (joined x u).reverse = Header.mayStartAfter u.reverse := by
  rw [reverse_joined]
  cases u with
  | nil =>
    -- the semicolon is reached, and a header may start behind it
    rfl
  | cons c u =>
    have hc : isBlank c = false :=
      not_isBlank_of_isIdentStart (by simp [isIdentStart, h c u rfl])
    obtain ⟨d, w, hdrop⟩ := dropWhile_append_cons hc u.reverse
    have hrun (v : Text) :
        (d :: (w ++ newline :: v)).takeWhile isIdentByte = (d :: (w ++ [])).takeWhile isIdentByte := by
      rw [List.append_nil, ← List.cons_append, Text.takeWhile_before (by decide)]
    rw [List.reverse_cons, List.append_assoc]
    unfold Header.mayStartAfter
    rw [List.singleton_append, hdrop, hdrop]
    simp only [hrun]

/-! ### Headers -/

/-- The same header `k` bytes further on. -/
def Header.shift (k : Nat) (h : Header) : Header :=
  { h with
    start := k + h.start
    keywordStart := k + h.keywordStart
    stop := k + h.stop
    params := h.params.map fun x => (k + x.1, k + x.2)
    directivesEnd := k + h.directivesEnd }

namespace Header

theorem ofCandidate?_shift (k o : Nat) {before before' : Text} (t : Text) (m : Candidate)
    (h : mayStartAfter before' = mayStartAfter before) :
    ofCandidate? ⟨k + o, before', t⟩ m = (ofCandidate? ⟨o, before, t⟩ m).map (shift k) := by
  have hparts (params n₁ returnType n₂ r kind) :
      ofParts ⟨k + o, before', t⟩ m params n₁ returnType n₂ r kind =
        shift k (ofParts ⟨o, before, t⟩ m params n₁ returnType n₂ r kind) := by
    simp only [ofParts, toParams, shift, Nat.add_assoc, Option.map_map, Function.comp_def]
  apply Option.ext
  intro h'
  rw [Option.map_eq_some_iff, ofCandidate?_eq_some_iff, h]
  constructor
  · rintro ⟨hstart, params, n₁, returnType, n₂, r, kind, h₁, h₂, h₃, h₄, rfl⟩
    refine ⟨_, ofCandidate?_eq_some_iff.mpr ?_, (hparts ..).symm⟩
    exact ⟨hstart, params, n₁, returnType, n₂, r, kind, h₁, h₂, h₃, h₄, rfl⟩
  · rintro ⟨h'', hh, rfl⟩
    obtain ⟨hstart, params, n₁, returnType, n₂, r, kind, h₁, h₂, h₃, h₄, rfl⟩ :=
      ofCandidate?_eq_some_iff.mp hh
    exact ⟨hstart, params, n₁, returnType, n₂, r, kind, h₁, h₂, h₃, h₄, (hparts ..).symm⟩

theorem ofOffset_joined (x : Text) {i : Nat} (hi : i ≤ b.length) :
    Cursor.ofOffset (joined x b) (x.length + 2 + i) =
      ⟨x.length + 2 + i, (joined x (b.take i)).reverse, b.drop i⟩ := by
  rw [Cursor.ofOffset_eq, take_joined, drop_joined, length_joined, Nat.min_eq_left (by omega)]

theorem candidate?_joined (x : Text) (hb : Fresh b) {i : Nat} (hi : i ≤ b.length) :
    candidate? (Cursor.ofOffset (joined x b) (x.length + 2 + i)) =
      candidate? (Cursor.ofOffset b i) := by
  rw [ofOffset_joined x hi, Cursor.ofOffset_of_le hi]
  simp only [candidate?, endsWord_joined x (hb.take i)]

theorem ofCandidate?_joined (x : Text) (hb : Fresh b) {i : Nat} (hi : i ≤ b.length)
    (m : Candidate) :
    ofCandidate? (Cursor.ofOffset (joined x b) (x.length + 2 + i)) m =
      (ofCandidate? (Cursor.ofOffset b i) m).map (shift (x.length + 2)) := by
  rw [ofOffset_joined x hi, Cursor.ofOffset_of_le hi]
  exact ofCandidate?_shift _ _ _ m (mayStartAfter_joined x (hb.take i))

theorem atPlace?_joined (x : Text) (hb : Fresh b) {i : Nat} (hi : i ≤ b.length) :
    atPlace? (Cursor.ofOffset (joined x b) (x.length + 2 + i)) =
      (atPlace? (Cursor.ofOffset b i)).map (shift (x.length + 2)) := by
  unfold atPlace?
  simp only [ofCandidate?_joined x hb hi]
  simp only [ofOffset_joined x hi, Cursor.ofOffset_of_le hi, endsWord_joined x (hb.take i)]
  split
  · rfl
  · cases bare? (b.drop i) <;> rfl

theorem find?_joined (x : Text) (hb : Fresh b) (p : Nat) :
    find? (joined x b) (x.length + 2 + p) = (find? b p).map (shift (x.length + 2)) := by
  induction hlen : b.length - p using Nat.strongRecOn generalizing p with
  | ind n ih =>
    subst hlen
    rw [find?_eq, find?_eq b, length_joined]
    by_cases hp : p < b.length
    · rw [if_pos (by omega), if_pos hp, candidate?_joined x hb (Nat.le_of_lt hp)]
      cases candidate? (Cursor.ofOffset b p) with
      | none => exact ih _ (by omega) (p + 1) rfl
      | some c =>
        have hrest := ih _ (by omega) (p + max 1 c.size) rfl
        rw [← Nat.add_assoc] at hrest
        simp only [ofCandidate?_joined x hb (Nat.le_of_lt hp), hrest]
        cases ofCandidate? (Cursor.ofOffset b p) c <;> rfl
    · rw [if_neg (by omega), if_neg hp]
      rfl

end Header

/-! ### Bodies -/

/-- The same result `k` bytes further on. -/
def BodyScan.shift (k : Nat) (r : BodyScan) : BodyScan :=
  { r with stop := k + r.stop }

namespace Body

/-- The same state `k` bytes further on. -/
def State.shift (k : Nat) (s : State) : State :=
  { s with pendingClass := s.pendingClass.map (k + ·) }

/-- The same move `k` bytes further on. -/
def Move.shift (k : Nat) : Move → Move
  | .goOn o s => .goOn (k + o) (s.shift k)
  | .halt r => .halt (r.shift k)

theorem wordStart_joined (x b : Text) (i : Nat) :
    wordStart (joined x b) (x.length + 2 + i) = wordStart b i := by
  have hbefore : (byteBefore? (joined x b) (x.length + 2 + i)).any binds =
      (byteBefore? b i).any binds := by
    cases i with
    | zero =>
      -- before the first byte stands the line break, which binds nothing
      show ((joined x b)[x.length + 1]?).any binds = _
      rw [joined, List.getElem?_append_right (Nat.le_add_right _ _), Nat.add_sub_cancel_left]
      show binds newline = false
      decide
    | succ i =>
      show ((joined x b)[x.length + 2 + i]?).any binds = _
      rw [getElem?_joined]
      rfl
  rw [wordStart, wordStart, getElem?_joined, hbefore]

theorem words_joined (x b : Text) (p q : Nat) :
    words (joined x b) (x.length + 2 + p) (x.length + 2 + q) =
      (words b p q).map (x.length + 2 + ·) := by
  rw [words, words, show x.length + 2 + q - (x.length + 2 + p) = q - p by omega,
    ← List.map_add_range', List.filter_map]
  congr 2
  funext i
  exact wordStart_joined x b i

theorem clear_joined (x b : Text) (p q : Nat) :
    clear (joined x b) (x.length + 2 + p) (x.length + 2 + q) = clear b p q := by
  rw [clear, slice_joined, clear]

theorem across_joined (x b : Text) (p q : Nat) (s : State) :
    (s.shift (x.length + 2)).across (joined x b) (x.length + 2 + p) (x.length + 2 + q) =
      (s.across b p q).shift (x.length + 2) := by
  unfold State.across
  rw [clear_joined]
  split <;> rfl

theorem wordAt_joined (x b : Text) (q : Nat) :
    wordAt (joined x b) (x.length + 2 + q) = wordAt b q := by
  rw [wordAt, wordAt, drop_joined]

theorem wordEnd_joined (x b : Text) (q : Nat) :
    wordEnd (joined x b) (x.length + 2 + q) = x.length + 2 + wordEnd b q := by
  rw [wordEnd, wordEnd, drop_joined, Nat.add_assoc]

theorem closeAt_joined (x b : Text) (e : Nat) :
    closeAt (joined x b) (x.length + 2 + e) = x.length + 2 + closeAt b e := by
  rw [closeAt, closeAt, drop_joined, Nat.add_assoc]

theorem headerAt_joined (x : Text) (hb : Fresh b) {q : Nat} (hq : q ≤ b.length) :
    headerAt (joined x b) (x.length + 2 + q) = (headerAt b q).map (Header.shift (x.length + 2)) := by
  unfold headerAt
  rw [wordAt_joined, Header.atPlace?_joined x hb hq]
  split <;> rfl

theorem afterWord_shift (k limit q e : Nat) (word : Word) (header : Option Header) (s : State)
    (hword : word ≠ .closer) :
    afterWord (k + limit) (k + q) (k + e) word (header.map (Header.shift k)) [] (s.shift k) =
      (afterWord limit q e word header [] s).shift k := by
  cases word with
  | closer => exact absurd rfl hword
  | opener | classWord | other => rfl
  | routine kind =>
    cases header with
    | none => rfl
    | some h =>
      have hcut : (s.shift k).cut ((s.shift k).pendingClass.getD (k + q)) =
          (s.cut (s.pendingClass.getD q)).shift k := by
        show Move.halt ⟨(s.pendingClass.map (k + ·)).getD (k + q), _, _⟩ = Move.halt ⟨_, _, _⟩
        cases s.pendingClass <;> rfl
      simp only [afterWord, Option.map_some]
      rw [hcut]
      show (if h.isClassMethod || h.isQualified || 0 < s.depth || !nestable kind then _
        else if h.declarationOnly then Move.goOn (min (k + h.directivesEnd) (k + limit)) _
        else Move.goOn (min (k + h.stop) (k + limit)) _) = _
      rw [Nat.add_min_add_left, Nat.add_min_add_left]
      split
      · rfl
      · split <;> rfl

theorem moveAt_joined (x : Text) (hb : Fresh b) {q : Nat} (hq : q ≤ b.length) (s : State) :
    moveAt (joined x b) (x.length + 2 + q) (s.shift (x.length + 2)) =
      (moveAt b q s).shift (x.length + 2) := by
  unfold moveAt
  rw [wordAt_joined, wordEnd_joined, closeAt_joined, headerAt_joined x hb hq, length_joined]
  split
  · obtain ⟨depth, suspended, pendingClass⟩ := s
    by_cases hdepth : depth = 1
    · subst hdepth
      cases suspended <;> rfl
    · have hshift : ¬(State.shift (x.length + 2) ⟨depth, suspended, pendingClass⟩).depth = 1 := hdepth
      rw [if_neg hshift, if_neg hdepth]
      rfl
  · next hword => exact afterWord_shift _ _ _ _ _ _ _ hword

/-- **A walk in a text is one behind another text.** -/
theorem Walks.behind (x : Text) (hb : Fresh b) {p : Nat} {s : State} {r : BodyScan}
    (h : Walks b p s r) :
    Walks (joined x b) (x.length + 2 + p) (s.shift (x.length + 2)) (r.shift (x.length + 2)) := by
  have hwords {p q : Nat} {vs : List Nat} (hw : words b p b.length = q :: vs) :
      words (joined x b) (x.length + 2 + p) (joined x b).length =
        (x.length + 2 + q) :: vs.map (x.length + 2 + ·) := by
    rw [length_joined, words_joined, hw, List.map_cons]
  have hle {p q : Nat} {vs : List Nat} (hw : words b p b.length = q :: vs) : q ≤ b.length :=
    Nat.le_of_lt (words_first hw).2.1
  induction h with
  | @done p s hw =>
    have hnil : words (joined x b) (x.length + 2 + p) (joined x b).length = [] := by
      rw [length_joined, words_joined, hw, List.map_nil]
    have := Walks.done (s := s.shift (x.length + 2)) hnil
    rw [length_joined] at this
    exact this
  | halt hw hmove =>
    refine .halt (hwords hw) ?_
    rw [across_joined, moveAt_joined x hb (hle hw), hmove]
    rfl
  | goOn hw hmove _ ih =>
    refine .goOn (hwords hw) ?_ ih
    rw [across_joined, moveAt_joined x hb (hle hw), hmove]
    rfl

end Body

end PascalSurvey.Routine
