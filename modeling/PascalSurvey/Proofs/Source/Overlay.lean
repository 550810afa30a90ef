/-
PascalSurvey/Proofs/Source/Overlay.lean

What the overlay of a text says about the text.  The overlay is the text with comments and
the insides of literals blank; reading it from an offset that is outside gives the overlay of
the rest (`Outside.overlay_drop`).

A byte of the overlay is either the code byte that stands there in the text or a *filler*: a
blank, a line break or a quote.  So any other byte of the overlay is code
(`isCode_of_not_filler`), and the offset behind it is outside (`outside_succ_of_overlay`).
The converse question, what stands before a code byte, has one more answer: the last byte of
a region.  Such a byte is a closing brace, parenthesis or quote, or a line break follows it
(`region_edge`), which is why looking back one byte in the text and in the overlay gives the
same answer to any test that no such byte passes (`Outside.any_before`).
-/
import PascalSurvey.Proofs.Source.Place

namespace PascalSurvey.Source

open Ascii

/-- The overlay that routines are read from. -/
abbrev overlay (t : Text) : Text := mask .commentsAndLiterals t

/-- The bytes that an overlay has in place of comments and literals. -/
def isFiller (b : UInt8) : Bool := b == space || b == newline || b == cr || b == quote

theorem not_isFiller_of_class {p : UInt8 → Bool} {b : UInt8} (hb : p b = true)
    (hp : [space, newline, cr, quote].any p = false) : isFiller b = false := by
  rw [List.any_eq_false] at hp
  rw [Bool.eq_false_iff]
  intro hf
  simp only [isFiller, Bool.or_eq_true, beq_iff_eq] at hf
  rcases hf with ((rfl | rfl) | rfl) | rfl <;> exact hp _ (by simp) hb

/-! ### The overlay piece by piece -/

@[simp] theorem overlay_nil : overlay [] = [] := by
  simp [overlay, mask, pieces]

theorem overlay_code {b : UInt8} {r : Text} (h : regionAt? (b :: r) = none) :
    overlay (b :: r) = b :: overlay r := mask_code h _

theorem overlay_region {t : Text} {kind : Region} {n : Nat} (h : regionAt? t = some (kind, n)) :
    overlay t =
      (Piece.region kind (t.take n)).masked .commentsAndLiterals ++ overlay (t.drop n) :=
  mask_region h _

/-- A literal keeps its opening quote. -/
theorem overlay_quote (r : Text) : ∃ m, overlay (quote :: r) = quote :: m := by
  rw [overlay_region (t := quote :: r) rfl, Nat.add_comm, List.take_succ_cons]
  exact ⟨_, rfl⟩

/-- What is made of the pieces byte by byte is cut where the text is cut. -/
theorem Outside.flatMap_pieces_drop {α : Type} {f : Piece → List α} {t : Text} {i : Nat}
    (hf : ∀ p, (f p).length = p.text.length) (h : Outside t i) :
    ((pieces t).flatMap f).drop i = (pieces (t.drop i)).flatMap f := by
  obtain ⟨ps, hps, htake⟩ := h.pieces_eq
  have hlen : (ps.flatMap f).length = i := by
    have := congrArg List.length htake
    rw [List.length_take, Nat.min_eq_left h.le_length] at this
    rw [← this, List.length_flatMap, List.length_flatMap]
    simp only [hf]
  rw [hps, List.flatMap_append, ← hlen, List.drop_left, hlen]

theorem Outside.overlay_drop {t : Text} {i : Nat} (h : Outside t i) :
    (overlay t).drop i = overlay (t.drop i) :=
  h.flatMap_pieces_drop (Piece.length_masked _)

theorem isBlank_of_mem_blanked {t : Text} {b : UInt8} (h : b ∈ blanked t) :
    b = space ∨ b = newline ∨ b = cr := by
  obtain ⟨a, -, rfl⟩ := List.mem_map.mp h
  unfold blankByte
  split <;> simp_all

/-- A comment is made blank in every overlay. -/
theorem masked_comment {kind : Region} {mode : Mask} (hk : kind ≠ .literal) (s : Text) :
    (Piece.region kind s).masked mode = blanked s := by
  cases kind with
  | literal => exact absurd rfl hk
  | lineComment | braceComment | starComment => rfl

theorem isBlank_of_mem_comment {kind : Region} {t : Text} {b : UInt8} (hk : kind ≠ .literal)
    (h : b ∈ (Piece.region kind t).masked .commentsAndLiterals) : isBlank b = true := by
  rw [masked_comment hk] at h
  rcases isBlank_of_mem_blanked h with rfl | rfl | rfl <;> decide

/-- A region is all filler in the overlay. -/
theorem isFiller_of_mem_region {t : Text} {kind : Region} {n : Nat} {b : UInt8}
    (hr : regionAt? t = some (kind, n))
    (h : b ∈ (Piece.region kind (t.take n)).masked .commentsAndLiterals) : isFiller b = true := by
  have hblanked {u : Text} (hb : b ∈ blanked u) : isFiller b = true := by
    rcases isBlank_of_mem_blanked hb with rfl | rfl | rfl <;> decide
  cases opens_of_regionAt? hr with
  | line r | brace r | star r => exact hblanked h
  | literal r =>
    rw [Nat.add_comm, List.take_succ_cons] at h
    rcases List.mem_cons.mp h with rfl | h
    · decide
    · unfold blankLiteral at h
      split at h
      · rcases List.mem_append.mp h with h | h
        · exact hblanked h
        · rw [List.mem_singleton.mp h]
          decide
      · exact hblanked h

/-! ### Line breaks -/

theorem map_newline_blanked (t : Text) :
    (blanked t).map (· == newline) = t.map (· == newline) := by
  rw [blanked, List.map_map]
  apply List.map_congr_left
  intro b _
  show (blankByte b == newline) = (b == newline)
  unfold blankByte
  split
  · rfl
  · next hb =>
    have hne : b ≠ newline := fun h => hb (.inl h)
    rw [beq_eq_false_iff_ne.mpr hne]
    decide

/-- A piece has line breaks at the same places in every overlay. -/
theorem map_newline_masked (mode : Mask) (p : Piece) :
    (p.masked mode).map (· == newline) = p.text.map (· == newline) := by
  match mode, p with
  | _, .code b => rfl
  | _, .region .lineComment t | _, .region .braceComment t | _, .region .starComment t =>
    exact map_newline_blanked t
  | .comments, .region .literal t => rfl
  | .commentsAndLiterals, .region .literal [] => rfl
  | .commentsAndLiterals, .region .literal (q :: tail) =>
    show (q == newline) :: (blankLiteral tail).map (· == newline) =
      (q == newline) :: tail.map (· == newline)
    unfold blankLiteral
    split
    · next hlast =>
      obtain ⟨inside, rfl⟩ := List.getLast?_eq_some_iff.mp hlast
      rw [List.dropLast_concat, List.map_append, map_newline_blanked, List.map_append]
    · rw [map_newline_blanked]

theorem map_newline_mask (mode : Mask) (t : Text) :
    (mask mode t).map (· == newline) = t.map (· == newline) := by
  conv => rhs; rw [← flatMap_text_pieces t]
  simp only [mask, List.map_flatMap, map_newline_masked]

/-- An overlay keeps the line breaks before an offset. -/
theorem breaks_take_mask (mode : Mask) (t : Text) (i : Nat) :
    Text.breaks ((mask mode t).take i) = Text.breaks (t.take i) := by
  have hcount (v : Text) : Text.breaks v = (v.map (· == newline)).count true := by
    rw [Text.breaks, List.count, List.count, List.countP_map]
    congr 1
    funext b
    show (b == newline) = ((b == newline) == true)
    rw [beq_true]
  rw [hcount, hcount, List.map_take, List.map_take, map_newline_mask]

theorem breaks_take_overlay (t : Text) (i : Nat) :
    Text.breaks ((overlay t).take i) = Text.breaks (t.take i) :=
  breaks_take_mask .commentsAndLiterals t i

/-! ### Code bytes and fillers -/

theorem isCode_code_zero {b : UInt8} {r : Text} (h : regionAt? (b :: r) = none) :
    isCode (b :: r) 0 = true := by
  simp [isCode, codeMarks, pieces_code h, Piece.marks]

theorem isCode_code_succ {b : UInt8} {r : Text} (h : regionAt? (b :: r) = none) (i : Nat) :
    isCode (b :: r) (i + 1) = isCode r i := by
  simp [isCode, codeMarks, pieces_code h, Piece.marks]

theorem isCode_region {t : Text} {kind : Region} {n : Nat} (h : regionAt? t = some (kind, n))
    (i : Nat) : isCode t i = (decide (n ≤ i) && isCode (t.drop n) (i - n)) := by
  have hn := (regionAt?_bounds h).2
  simp only [isCode, codeMarks, pieces_region h, List.flatMap_cons, Piece.marks]
  rw [List.getElem?_append]
  simp only [List.length_map, List.length_take, Nat.min_eq_left hn, List.getElem?_map]
  by_cases hi : i < n
  · rw [if_pos hi]
    have : ¬n ≤ i := by omega
    cases (t.take n)[i]? <;> simp [this]
  · rw [if_neg hi]
    simp [Nat.not_lt.mp hi]

/-- A code byte is the same in the overlay. -/
theorem overlay_getElem?_of_isCode {t : Text} {i : Nat} (h : isCode t i = true) :
    (overlay t)[i]? = t[i]? := by
  induction t using piecewise generalizing i with
  | nil => simp
  | code b r hr ih =>
    rw [overlay_code hr]
    cases i with
    | zero => rfl
    | succ i =>
      rw [isCode_code_succ hr] at h
      simpa using ih h
  | region t kind n hr ih =>
    have hn := (regionAt?_bounds hr).2
    rw [isCode_region hr, Bool.and_eq_true, decide_eq_true_eq] at h
    have hi := ih h.2
    rw [List.getElem?_drop, Nat.add_sub_cancel' h.1] at hi
    rw [overlay_region hr, List.getElem?_append_right (by simp [hn, h.1])]
    simpa [hn] using hi

/-- Where a text has no code its overlay has a filler. -/
theorem isFiller_of_not_isCode {t : Text} {i : Nat} {b : UInt8} (h : isCode t i = false)
    (hb : (overlay t)[i]? = some b) : isFiller b = true := by
  induction t using piecewise generalizing i with
  | nil => simp at hb
  | code a r hr ih =>
    cases i with
    | zero => simp [isCode_code_zero hr] at h
    | succ i =>
      rw [isCode_code_succ hr] at h
      rw [overlay_code hr] at hb
      exact ih h (by simpa using hb)
  | region t kind n hr ih =>
    have hn := (regionAt?_bounds hr).2
    rw [overlay_region hr, List.getElem?_append] at hb
    split at hb
    · exact isFiller_of_mem_region hr (List.mem_of_getElem? hb)
    · next hi =>
      simp only [Piece.length_masked, Piece.text_region, List.length_take,
        Nat.min_eq_left hn] at hb hi
      refine ih ?_ hb
      simpa [isCode_region hr, Nat.not_lt.mp hi] using h

/-- A byte of the overlay that is no filler is a code byte of the text. -/
theorem isCode_of_not_filler {t : Text} {i : Nat} {b : UInt8} (hb : (overlay t)[i]? = some b)
    (hf : isFiller b = false) : isCode t i = true := by
  cases h : isCode t i with
  | true => rfl
  | false =>
    rw [isFiller_of_not_isCode h hb] at hf
    cases hf

/-- A code byte begins no region, and it stands outside. -/
theorem code_of_isCode {t : Text} {i : Nat} (h : isCode t i = true) :
    Outside t i ∧ ∃ b r, t.drop i = b :: r ∧ regionAt? (b :: r) = none := by
  induction t using piecewise generalizing i with
  | nil => simp [isCode, codeMarks, pieces] at h
  | code b r hr ih =>
    cases i with
    | zero => exact ⟨outside_zero _, b, r, rfl, hr⟩
    | succ i =>
      rw [isCode_code_succ hr] at h
      simpa only [outside_succ_code hr, List.drop_succ_cons] using ih h
  | region t kind n hr ih =>
    rw [isCode_region hr, Bool.and_eq_true, decide_eq_true_eq] at h
    obtain ⟨hout, b, r, hd, hbr⟩ := ih h.2
    rw [List.drop_drop, Nat.add_sub_cancel' h.1] at hd
    exact ⟨(outside_region hr).mpr (.inr ⟨h.1, hout⟩), b, r, hd, hbr⟩

/-- A byte that stands outside and begins no region is code. -/
theorem Outside.isCode {t : Text} {i : Nat} {b : UInt8} {r : Text} (h : Outside t i)
    (hd : t.drop i = b :: r) (hr : regionAt? (b :: r) = none) : isCode t i = true := by
  have hmarks : (codeMarks t).drop i = codeMarks (b :: r) := by
    rw [← hd]
    refine h.flatMap_pieces_drop ?_
    intro p
    cases p with
    | code b => rfl
    | region kind t => simp [Piece.marks]
  rw [Source.isCode, ← List.head?_drop, hmarks, List.head?_eq_getElem?]
  exact isCode_code_zero hr

theorem outside_of_isCode {t : Text} {i : Nat} (h : isCode t i = true) :
    Outside t i ∧ Outside t (i + 1) := by
  obtain ⟨hout, b, r, hd, hbr⟩ := code_of_isCode h
  exact ⟨hout, hout.code hd hbr⟩

/-- The offset behind a byte of the overlay that is no filler is outside. -/
theorem outside_succ_of_overlay {t : Text} {i : Nat} {b : UInt8} (hb : (overlay t)[i]? = some b)
    (hf : isFiller b = false) : Outside t (i + 1) :=
  (outside_of_isCode (isCode_of_not_filler hb hf)).2

/-! ### The byte before an offset that is outside -/

/-- The bytes that stand before an offset that is outside without being code there: fillers
and the closing bytes of regions. -/
def isEdge (b : UInt8) : Bool := isFiller b || b == rbrace || b == rparen

theorem untilBreak_next (t : Text) :
    t[untilBreak t]? = none ∨ t[untilBreak t]? = some newline := by
  fun_induction untilBreak t with
  | case1 => exact .inl rfl
  | case2 => exact .inr rfl
  | case3 b r _ ih => simpa [Nat.add_comm 1] using ih

theorem throughBrace_last (t : Text) :
    t[throughBrace t]? = none ∨ ∃ k, throughBrace t = k + 1 ∧ t[k]? = some rbrace := by
  fun_induction throughBrace t with
  | case1 => exact .inl rfl
  | case2 => exact .inr ⟨0, rfl, rfl⟩
  | case3 b r _ ih =>
    rcases ih with h | ⟨k, hk, h⟩
    · exact .inl (by simpa [Nat.add_comm 1] using h)
    · exact .inr ⟨k + 1, by omega, by simpa using h⟩

theorem throughStar_last (t : Text) :
    t[throughStar t]? = none ∨ ∃ k, throughStar t = k + 1 ∧ t[k]? = some rparen := by
  fun_induction throughStar t with
  | case1 => exact .inl rfl
  | case2 => exact .inr ⟨1, rfl, rfl⟩
  | case3 b r _ ih =>
    rcases ih with h | ⟨k, hk, h⟩
    · exact .inl (by simpa [Nat.add_comm 1] using h)
    · exact .inr ⟨k + 1, by omega, by simpa using h⟩

theorem literalTail_last (t : Text) :
    t[literalTail t]? = none ∨ t[literalTail t]? = some newline ∨
      ∃ k, literalTail t = k + 1 ∧ t[k]? = some quote := by
  fun_induction literalTail t with
  | case1 => exact .inl rfl
  | case2 r ih =>
    rcases ih with h | h | ⟨k, hk, h⟩
    · exact .inl (by simpa [Nat.add_comm 2] using h)
    · exact .inr (.inl (by simpa [Nat.add_comm 2] using h))
    · exact .inr (.inr ⟨k + 2, by omega, by simpa using h⟩)
  | case3 => exact .inr (.inr ⟨0, rfl, rfl⟩)
  | case4 => exact .inr (.inl rfl)
  | case5 b r _ _ _ ih =>
    rcases ih with h | h | ⟨k, hk, h⟩
    · exact .inl (by simpa [Nat.add_comm 1] using h)
    · exact .inr (.inl (by simpa [Nat.add_comm 1] using h))
    · exact .inr (.inr ⟨k + 1, by omega, by simpa using h⟩)

/-- A region ends with its text, before a line break, or with a closing byte. -/
theorem region_edge {t : Text} {kind : Region} {n : Nat} (h : regionAt? t = some (kind, n)) :
    t[n]? = none ∨ t[n]? = some newline ∨ ∃ b, t[n - 1]? = some b ∧ isEdge b = true := by
  cases opens_of_regionAt? h with
  | line r =>
    rcases untilBreak_next r with h | h
    · exact .inl (by simpa [Nat.add_comm 2] using h)
    · exact .inr (.inl (by simpa [Nat.add_comm 2] using h))
  | brace r =>
    rcases throughBrace_last r with h | ⟨k, hk, h⟩
    · exact .inl (by simpa [Nat.add_comm 1] using h)
    · exact .inr (.inr ⟨rbrace, by simpa [hk, Nat.add_comm 1] using h, by decide⟩)
  | star r =>
    rcases throughStar_last r with h | ⟨k, hk, h⟩
    · exact .inl (by simpa [Nat.add_comm 2] using h)
    · exact .inr (.inr ⟨rparen, by simpa [hk, Nat.add_comm 2] using h, by decide⟩)
  | literal r =>
    rcases literalTail_last r with h | h | ⟨k, hk, h⟩
    · exact .inl (by simpa [Nat.add_comm 1] using h)
    · exact .inr (.inl (by simpa [Nat.add_comm 1] using h))
    · exact .inr (.inr ⟨quote, by simpa [hk, Nat.add_comm 1] using h, by decide⟩)

/-- Looking back one byte from a byte of code other than a line break gives the same answer
in the text and in its overlay, for every test that no edge passes. -/
theorem Outside.any_before {t : Text} {i : Nat} {b : UInt8} (h : Outside t (i + 1))
    (hb : t[i + 1]? = some b) (hbreak : b ≠ newline) {p : UInt8 → Bool}
    (hp : ∀ a, isEdge a = true → p a = false) : (t[i]?).any p = ((overlay t)[i]?).any p := by
  induction t using piecewise generalizing i with
  | nil => simp at hb
  | code a r hr ih =>
    rw [overlay_code hr]
    cases i with
    | zero => rfl
    | succ i =>
      rw [outside_succ_code hr] at h
      simpa using ih h (by simpa using hb)
  | region t kind n hr ih =>
    have hn := (regionAt?_bounds hr).2
    rcases (outside_region hr).mp h with h0 | ⟨hle, h⟩
    · omega
    · rw [overlay_region hr]
      rcases Nat.lt_or_ge i n with hi | hi
      · -- the byte at `i` is the last one of the region
        obtain rfl : n = i + 1 := by omega
        have hlen : i < ((Piece.region kind (t.take (i + 1))).masked .commentsAndLiterals).length := by
          simp
          omega
        rw [List.getElem?_append_left hlen, List.getElem?_eq_getElem hlen]
        have hfill := isFiller_of_mem_region hr (List.getElem_mem hlen)
        rw [Option.any_some, hp _ (by simp [isEdge, hfill])]
        rcases region_edge hr with h | h | ⟨a, ha, hedge⟩
        · simp [h] at hb
        · rw [h] at hb
          exact absurd (Option.some.inj hb).symm hbreak
        · simp only [Nat.add_sub_cancel] at ha
          rw [ha, Option.any_some, hp a hedge]
      · obtain ⟨j, rfl⟩ := Nat.exists_eq_add_of_le hi
        rw [List.getElem?_append_right (by simp [hn])]
        have := ih (i := j) (by rwa [show n + j + 1 - n = j + 1 by omega] at h)
          (by rw [List.getElem?_drop]; exact hb)
        rw [List.getElem?_drop] at this
        simpa [hn] using this

end PascalSurvey.Source
