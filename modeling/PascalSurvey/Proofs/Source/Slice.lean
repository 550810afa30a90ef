/-
PascalSurvey/Proofs/Source/Slice.lean

Slices of a source text.  A text that is cut off has the regions of the whole text, the last
of them shortened by the cut (`regionAt?_take`), with one exception: a cut between the two
bytes that open a comment leaves the first of them as code.  `Unsplit t i` excludes it, and it
holds wherever a text is cut in practice: at every offset that is outside (`Outside.unsplit`)
and before every byte that cannot be the second one of an opening pair (`unsplit_of_next`).

What is read off a text piece by piece, with one item for each byte, is then the same in a
slice and in the whole text (`flatMap_pieces_slice`).  The overlay without comments is read in
this way (`mask_comments_slice`), and so are the marks of code bytes (`isCode_slice`).  The
overlay without literals is not: a literal shows its last byte if that is a quote, and a cut
can make a doubled quote the last byte.
-/
import PascalSurvey.Proofs.Source.Overlay
import PascalSurvey.Proofs.Text.Trim

namespace PascalSurvey.Source

open Ascii

/-! ### Regions in shorter texts -/

theorem untilBreak_take (t : Text) (i : Nat) : untilBreak (t.take i) = min i (untilBreak t) := by
  fun_induction untilBreak t generalizing i with
  | case1 => simp [untilBreak]
  | case2 r =>
    cases i with
    | zero => simp [untilBreak]
    | succ i => rw [List.take_succ_cons, untilBreak, Nat.min_zero]
  | case3 b r hb ih =>
    cases i with
    | zero => simp [untilBreak]
    | succ i =>
      rw [List.take_succ_cons, untilBreak, ih]
      · omega
      · exact hb

theorem throughBrace_take (t : Text) (i : Nat) :
    throughBrace (t.take i) = min i (throughBrace t) := by
  fun_induction throughBrace t generalizing i with
  | case1 => simp [throughBrace]
  | case2 r =>
    cases i with
    | zero => simp [throughBrace]
    | succ i =>
      rw [List.take_succ_cons, throughBrace]
      omega
  | case3 b r hb ih =>
    cases i with
    | zero => simp [throughBrace]
    | succ i =>
      rw [List.take_succ_cons, throughBrace, ih]
      · omega
      · exact hb

theorem throughStar_take (t : Text) (i : Nat) :
    throughStar (t.take i) = min i (throughStar t) := by
  fun_induction throughStar t generalizing i with
  | case1 => simp [throughStar]
  | case2 r =>
    rcases i with - | - | i
    · simp [throughStar]
    · simp [throughStar]
    · rw [List.take_succ_cons, List.take_succ_cons, throughStar]
      omega
  | case3 b r hb ih =>
    cases i with
    | zero => simp [throughStar]
    | succ i =>
      -- what a cut leaves of `r` begins with a parenthesis only if `r` does
      rw [List.take_succ_cons, throughStar, ih]
      · omega
      · intro r' hstar hr'
        cases r with
        | nil => simp at hr'
        | cons c r =>
          cases i with
          | zero => simp at hr'
          | succ i =>
            rw [List.take_succ_cons] at hr'
            exact hb r hstar (by rw [(List.cons.inj hr').1])

theorem literalTail_take (t : Text) (i : Nat) :
    literalTail (t.take i) = min i (literalTail t) := by
  fun_induction literalTail t generalizing i with
  | case1 => simp [literalTail]
  | case2 r ih =>
    rcases i with - | - | i
    · simp [literalTail]
    · show 1 = min 1 (2 + literalTail r)
      omega
    · rw [List.take_succ_cons, List.take_succ_cons, literalTail, ih]
      omega
  | case3 r hr =>
    cases i with
    | zero => simp [literalTail]
    | succ i =>
      rw [List.take_succ_cons, literalTail]
      · omega
      · intro r' hr'
        cases r with
        | nil => simp at hr'
        | cons c r =>
          cases i with
          | zero => simp at hr'
          | succ i =>
            rw [List.take_succ_cons] at hr'
            exact hr r (by rw [(List.cons.inj hr').1])
  | case4 r =>
    cases i with
    | zero => simp [literalTail]
    | succ i => rw [List.take_succ_cons, literalTail, Nat.min_zero]
  | case5 b r _ hquote hbreak ih =>
    cases i with
    | zero => simp [literalTail]
    | succ i =>
      rw [List.take_succ_cons, literalTail, ih]
      · omega
      · rintro r' rfl _
        exact hquote rfl
      · exact hquote
      · exact hbreak

/-- The two bytes that open a comment do not stand on both sides of the offset. -/
def Unsplit (t : Text) (i : Nat) : Prop :=
  ∀ j, i = j + 1 → ∀ r, t.drop j ≠ slash :: slash :: r ∧ t.drop j ≠ lparen :: asterisk :: r

theorem Unsplit.drop {t : Text} {i n : Nat} (h : Unsplit t i) (hn : n ≤ i) :
    Unsplit (t.drop n) (i - n) := by
  intro j hj r
  rw [List.drop_drop]
  exact h (n + j) (by omega) r

/-- A region at the head of a text is there in what a cut leaves of the text, up to the cut. -/
theorem regionAt?_take {t : Text} {kind : Region} {n i : Nat} (h : regionAt? t = some (kind, n))
    (hi : 0 < i) (hsplit : Unsplit t i) : regionAt? (t.take i) = some (kind, min i n) := by
  cases opens_of_regionAt? h with
  | line r =>
    match i with
    | 1 => exact absurd rfl (hsplit 0 rfl r).1
    | i + 2 =>
      show some (Region.lineComment, 2 + untilBreak (r.take i)) = _
      rw [untilBreak_take, Nat.add_comm i 2, Nat.add_min_add_left]
  | brace r =>
    match i with
    | i + 1 =>
      show some (Region.braceComment, 1 + throughBrace (r.take i)) = _
      rw [throughBrace_take, Nat.add_comm i 1, Nat.add_min_add_left]
  | star r =>
    match i with
    | 1 => exact absurd rfl (hsplit 0 rfl r).2
    | i + 2 =>
      show some (Region.starComment, 2 + throughStar (r.take i)) = _
      rw [throughStar_take, Nat.add_comm i 2, Nat.add_min_add_left]
  | literal r =>
    match i with
    | i + 1 =>
      show some (Region.literal, 1 + literalTail (r.take i)) = _
      rw [literalTail_take, Nat.add_comm i 1, Nat.add_min_add_left]

/-- A cut opens no region. -/
theorem regionAt?_take_eq_none {b : UInt8} {r : Text} (h : regionAt? (b :: r) = none) (i : Nat) :
    regionAt? (b :: r.take i) = none := by
  cases r with
  | nil => rwa [List.take_nil]
  | cons c r =>
    cases i with
    | zero =>
      rw [List.take_zero]
      unfold regionAt? at h ⊢
      split at h <;> simp_all
    | succ i =>
      rw [List.take_succ_cons]
      unfold regionAt? at h ⊢
      split at h <;> simp_all

/-! ### Readings of a text piece by piece -/

/-- What is read off a piece has one item for each byte, and the piece cut off gives the
reading cut off. -/
structure Bytewise {α : Type} (f : Piece → List α) : Prop where
  length_code : ∀ b, (f (.code b)).length = 1
  length_region : ∀ kind t, (f (.region kind t)).length = t.length
  take_region : ∀ kind t i, f (.region kind (t.take i)) = (f (.region kind t)).take i

theorem bytewise_comments : Bytewise (Piece.masked .comments) where
  length_code b := rfl
  length_region kind t := by simp
  take_region kind t i := by cases kind <;> simp [Piece.masked, blanked]

theorem bytewise_marks : Bytewise Piece.marks where
  length_code b := rfl
  length_region kind t := by simp [Piece.marks]
  take_region kind t i := by simp [Piece.marks]

section
variable {α : Type} {f : Piece → List α} {t : Text} {s e i : Nat}

theorem Bytewise.length (hf : Bytewise f) (p : Piece) : (f p).length = p.text.length := by
  cases p with
  | code b => exact hf.length_code b
  | region kind t => exact hf.length_region kind t

theorem flatMap_pieces_take (hf : Bytewise f) (h : Unsplit t i) :
    (pieces (t.take i)).flatMap f = ((pieces t).flatMap f).take i := by
  induction t using piecewise generalizing i with
  | nil => simp [pieces]
  | code b r hr ih =>
    cases i with
    | zero => simp [pieces]
    | succ i =>
      have hone : (f (.code b)).take (i + 1) = f (.code b) :=
        List.take_of_length_le (by rw [hf.length_code]; omega)
      have hrest : Unsplit r i := h.drop (Nat.le_add_left 1 i)
      rw [List.take_succ_cons, pieces_code hr, pieces_code (regionAt?_take_eq_none hr i),
        List.flatMap_cons, List.flatMap_cons, List.take_append, hone, hf.length_code,
        Nat.add_sub_cancel, ih hrest]
  | region t kind n hr ih =>
    have hn := (regionAt?_bounds hr).2
    have hlen : (f (.region kind (t.take n))).length = n := by
      rw [hf.length_region, List.length_take, Nat.min_eq_left hn]
    rcases Nat.eq_zero_or_pos i with rfl | hi
    · simp [pieces]
    · rw [pieces_region hr, pieces_region (regionAt?_take hr hi h), List.flatMap_cons,
        List.flatMap_cons, List.take_append, hlen]
      rcases Nat.le_total i n with hle | hle
      · -- the cut falls into the region, which is all that is left
        rw [Nat.min_eq_left hle, Nat.sub_eq_zero_of_le hle, ← hf.take_region, List.take_take,
          List.take_take, Nat.min_self, Nat.min_eq_left hle,
          List.drop_eq_nil_of_le (by rw [List.length_take]; omega)]
        simp [pieces]
      · have hall : (f (.region kind (t.take n))).take i = f (.region kind (t.take n)) :=
          List.take_of_length_le (by rw [hlen]; exact hle)
        rw [Nat.min_eq_right hle, List.take_take, Nat.min_eq_left hle, hall, List.drop_take,
          ih (h.drop hle)]

/-- **Slices are read as they are in the whole text.** -/
theorem flatMap_pieces_slice (hf : Bytewise f) (hs : Outside t s) (he : Unsplit t e) (hse : s ≤ e) :
    (pieces (Text.slice t s e)).flatMap f = (((pieces t).flatMap f).drop s).take (e - s) := by
  rw [Text.slice, flatMap_pieces_take hf (he.drop hse), hs.flatMap_pieces_drop hf.length]

theorem mask_comments_slice (hs : Outside t s) (he : Unsplit t e) (hse : s ≤ e) :
    mask .comments (Text.slice t s e) = Text.slice (mask .comments t) s e :=
  flatMap_pieces_slice bytewise_comments hs he hse

theorem isCode_slice (hs : Outside t s) (he : Unsplit t e) (hi : s + i < e) :
    isCode (Text.slice t s e) i = isCode t (s + i) := by
  rw [isCode, isCode, codeMarks, flatMap_pieces_slice bytewise_marks hs he (by omega),
    List.getElem?_take, if_pos (by omega), List.getElem?_drop]
  rfl

end

/-! ### Offsets that split no opening pair -/

theorem unsplit_of_next {t : Text} {i : Nat} {c : UInt8} (h : t[i]? = some c) (hslash : c ≠ slash)
    (hstar : c ≠ asterisk) : Unsplit t i := by
  rintro j rfl r
  rw [← List.getElem?_drop] at h
  constructor
  · rintro heq
    rw [heq] at h
    exact hslash (Option.some.inj h).symm
  · rintro heq
    rw [heq] at h
    exact hstar (Option.some.inj h).symm

theorem Outside.unsplit {t : Text} {i : Nat} (h : Outside t i) : Unsplit t i := by
  induction t using piecewise generalizing i with
  | nil => rintro j - r; simp
  | code b r hr ih =>
    rintro j rfl u
    cases j with
    | zero =>
      -- an opening pair would have made a region
      constructor <;>
      · rintro heq
        rw [List.drop_zero] at heq
        rw [heq] at hr
        cases hr
    | succ j => exact ih ((outside_succ_code hr).mp h) j rfl u
  | region t kind n hr ih =>
    rintro j rfl u
    rcases (outside_region hr).mp h with h0 | ⟨hle, h⟩
    · omega
    · rcases Nat.lt_or_ge j n with hj | hj
      · -- the offset is the end of the region, and no region ends with half of a pair
        obtain rfl : n = j + 1 := by omega
        have key {a c : UInt8} (heq : t.drop j = a :: c :: u) : c = newline ∨ isEdge a = true := by
          have hc : t[j + 1]? = some c := by
            rw [← List.getElem?_drop, heq]
            rfl
          rcases region_edge hr with hnone | hbreak | ⟨b, hb, hedge⟩
          · rw [hnone] at hc
            cases hc
          · rw [hbreak] at hc
            exact .inl (Option.some.inj hc).symm
          · rw [Nat.add_sub_cancel, Text.getElem?_of_drop heq] at hb
            rw [Option.some.inj hb]
            exact .inr hedge
        constructor
        · intro heq
          exact absurd (key heq) (by decide)
        · intro heq
          exact absurd (key heq) (by decide)
      · have := ih h (j - n) (by omega) u
        rwa [List.drop_drop, Nat.add_sub_cancel' hj] at this

/-- Trimming the end of a slice gives a slice that ends without splitting an opening pair. -/
theorem trimEnd_slice {t : Text} {s e : Nat} (he : Outside t e) (hse : s ≤ e) :
    ∃ e' ≤ e, s ≤ e' ∧ Unsplit t e' ∧ Text.trimEnd (Text.slice t s e) = Text.slice t s e' := by
  obtain ⟨v, hv, hblank⟩ := Text.trimEnd_append (Text.slice t s e)
  generalize Text.trimEnd (Text.slice t s e) = u at hv ⊢
  have hdrop : t.drop s = u ++ v ++ t.drop e := by
    rw [← hv, Text.slice, ← Nat.add_sub_cancel' hse, ← List.drop_drop, Nat.add_sub_cancel_left,
      List.take_append_drop]
  have hlen : u.length + v.length = e - s := by
    have hle := he.le_length
    rw [← List.length_append, ← hv, Text.slice, List.length_take, List.length_drop]
    omega
  refine ⟨s + u.length, by omega, by omega, ?_, ?_⟩
  · cases v with
    | nil =>
      -- nothing was trimmed off
      have heq : s + u.length = e := by
        rw [List.length_nil] at hlen
        omega
      rw [heq]
      exact he.unsplit
    | cons c v =>
      have hnext : t[s + u.length]? = some c := by
        rw [← List.getElem?_drop, hdrop, List.append_assoc,
          List.getElem?_append_right (Nat.le_refl _), Nat.sub_self]
        rfl
      have hc := hblank c List.mem_cons_self
      refine unsplit_of_next hnext ?_ ?_
      · rintro rfl
        exact absurd (hc (by decide)) (by decide)
      · rintro rfl
        exact absurd (hc (by decide)) (by decide)
  · rw [Text.slice, Nat.add_sub_cancel_left, hdrop, List.append_assoc, List.take_left]

end PascalSurvey.Source
