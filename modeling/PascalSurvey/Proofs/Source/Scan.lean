/-
PascalSurvey/Proofs/Source/Scan.lean

What an overlay does to each byte of a text.  `Scanned t i` is the scan from left to right: it steps
over a byte of code, and over a region as a whole.  The offsets where it stops are those outside
(`scanned_iff_outside`), so every byte is a byte of code or stands in a region that the scan found
(`exists_scanned`), and a region is shown in the overlay at its own place (`mask_region_getElem?`).

Main result: an overlay of a valid text is valid, and byte by byte it is the text with the bytes of
comments, or also those inside literals, made spaces (`mask_overlays`).
-/
import PascalSurvey.Proofs.Source.Overlay
import PascalSurvey.Proofs.Text.Valid

namespace PascalSurvey.Source

open Ascii

/-! ### The scan -/

/-- The offsets where a scan from left to right stops. -/
inductive Scanned (t : Text) : Nat → Prop
  | start : Scanned t 0
  | code {i : Nat} : Scanned t i → i < t.length → regionEnd? t i = none → Scanned t (i + 1)
  | region {i j : Nat} : Scanned t i → regionEnd? t i = some j → Scanned t j

section
variable {t : Text} {i j : Nat}

theorem regionEnd?_eq_some_iff : regionEnd? t i = some j ↔
    ∃ kind n, regionAt? (t.drop i) = some (kind, n) ∧ j = i + n := by
  rw [regionEnd?, Option.map_eq_some_iff]
  constructor
  · rintro ⟨⟨kind, n⟩, hr, rfl⟩
    exact ⟨kind, n, hr, rfl⟩
  · rintro ⟨kind, n, hr, rfl⟩
    exact ⟨(kind, n), hr, rfl⟩

theorem regionEnd?_eq_none_iff : regionEnd? t i = none ↔ regionAt? (t.drop i) = none := by
  rw [regionEnd?, Option.map_eq_none_iff]

/-- **A region takes the scan on**, and not beyond the text. -/
theorem regionEnd?_bounds (h : regionEnd? t i = some j) : i < j ∧ j ≤ t.length := by
  obtain ⟨kind, n, hr, rfl⟩ := regionEnd?_eq_some_iff.mp h
  obtain ⟨hpos, hle⟩ := regionAt?_bounds hr
  rw [List.length_drop] at hle
  omega

theorem Scanned.outside (h : Scanned t i) : Outside t i := by
  induction h with
  | start => exact outside_zero t
  | @code i _ hi hend ih =>
    rw [regionEnd?_eq_none_iff, List.drop_eq_getElem_cons hi] at hend
    exact ih.code (List.drop_eq_getElem_cons hi) hend
  | region _ hend ih =>
    obtain ⟨kind, n, hr, rfl⟩ := regionEnd?_eq_some_iff.mp hend
    exact ih.region hr

/-- The scan of a text goes on with the scan of what is left. -/
theorem Scanned.of_outside_drop {u : Text} (hu : u.drop j = t) (hj : Scanned u j)
    (h : Outside t i) : Scanned u (j + i) := by
  induction t using piecewise generalizing i j with
  | nil =>
    obtain rfl : i = 0 := Nat.le_zero.mp h.le_length
    exact hj
  | code b r hr ih =>
    cases i with
    | zero => exact hj
    | succ i =>
      have hlt : j < u.length := Text.lt_length_of_getElem? (Text.getElem?_of_drop hu)
      have hrest : u.drop (j + 1) = r := by
        rw [← List.drop_drop, hu, List.drop_succ_cons, List.drop_zero]
      have hnext := hj.code hlt (regionEnd?_eq_none_iff.mpr (by rw [hu, hr]))
      have := ih hrest hnext ((outside_succ_code hr).mp h)
      rwa [Nat.add_right_comm] at this
  | region t kind n hr ih =>
    rcases (outside_region hr).mp h with rfl | ⟨hle, h⟩
    · exact hj
    · have hrest : u.drop (j + n) = t.drop n := by rw [← List.drop_drop, hu]
      have hnext := hj.region (regionEnd?_eq_some_iff.mpr ⟨kind, n, by rw [hu, hr], rfl⟩)
      have := ih hrest hnext h
      rwa [Nat.add_assoc, Nat.add_sub_cancel' hle] at this

/-- **The scan stops at the offsets that are outside.** -/
theorem scanned_iff_outside : Scanned t i ↔ Outside t i := by
  refine ⟨Scanned.outside, fun h => ?_⟩
  have := Scanned.start.of_outside_drop (List.drop_zero (l := t)) h
  rwa [Nat.zero_add] at this

/-- The scan comes to the end of the text, whether its last region is closed or not. -/
theorem scanned_length (t : Text) : Scanned t t.length :=
  scanned_iff_outside.mpr (outside_length t)

/-- **Each byte is found by the scan**, as a byte of code or in a region. -/
theorem exists_scanned (h : i < t.length) : ∃ s, Outside t s ∧
    (s = i ∧ regionAt? (t.drop i) = none ∨
      ∃ kind n, regionAt? (t.drop s) = some (kind, n) ∧ s ≤ i ∧ i < s + n) := by
  induction t using piecewise generalizing i with
  | nil => cases h
  | code b r hr ih =>
    cases i with
    | zero => exact ⟨0, outside_zero _, .inl ⟨rfl, hr⟩⟩
    | succ i =>
      obtain ⟨s, hs, hfound⟩ := ih (Nat.lt_of_succ_lt_succ h)
      refine ⟨s + 1, (outside_succ_code hr).mpr hs, ?_⟩
      rcases hfound with ⟨rfl, hnone⟩ | ⟨kind, n, hregion, hle, hlt⟩
      · exact .inl ⟨rfl, hnone⟩
      · exact .inr ⟨kind, n, hregion, by omega, by omega⟩
  | region t kind n hr ih =>
    rcases Nat.lt_or_ge i n with hlt | hle
    · exact ⟨0, outside_zero t, .inr ⟨kind, n, hr, Nat.zero_le i, by omega⟩⟩
    · obtain ⟨s, hs, hfound⟩ := ih (i := i - n) (by rw [List.length_drop]; omega)
      refine ⟨n + s, (outside_region hr).mpr (.inr ⟨by omega, by rwa [Nat.add_sub_cancel_left]⟩), ?_⟩
      rcases hfound with ⟨rfl, hnone⟩ | ⟨kind', n', hregion, hle', hlt'⟩
      · rw [List.drop_drop, Nat.add_sub_cancel' hle] at hnone
        exact .inl ⟨Nat.add_sub_cancel' hle, hnone⟩
      · rw [List.drop_drop] at hregion
        exact .inr ⟨kind', n', hregion, by omega, by omega⟩

end

/-! ### The bytes of an overlay -/

/-- An offset whose byte the overlay makes a space, if it is not part of a line break: it stands in
a comment, or behind the quote that opens a literal and before one that ends it. -/
def Blanked (mode : Mask) (t : Text) (i : Nat) : Prop :=
  ∃ s e, Scanned t s ∧ regionEnd? t s = some e ∧ s ≤ i ∧ i < e ∧
    (t[s]? = some quote →
      mode = .commentsAndLiterals ∧ s < i ∧ ¬(i + 1 = e ∧ t[i]? = some quote))

theorem blankByte_of_break {b : UInt8} (h : b = newline ∨ b = cr) : blankByte b = b := if_pos h

section
variable {t u : Text} {i j n s : Nat} {kind : Region} {mode : Mask}

theorem getElem?_blanked (u : Text) (j : Nat) : (blanked u)[j]? = u[j]?.map blankByte :=
  List.getElem?_map

/-- Of the bytes behind the opening quote only a final quote is left. -/
theorem getElem?_blankLiteral (u : Text) (j : Nat) : (blankLiteral u)[j]? =
    if j + 1 = u.length ∧ u[j]? = some quote then u[j]? else u[j]?.map blankByte := by
  unfold blankLiteral
  split
  · next hlast =>
    obtain ⟨inside, rfl⟩ := List.getLast?_eq_some_iff.mp hlast
    rw [List.dropLast_concat, List.length_append, List.length_singleton, List.getElem?_append,
      List.getElem?_append, length_blanked, getElem?_blanked]
    rcases Nat.lt_trichotomy j inside.length with hlt | rfl | hgt
    · rw [if_pos hlt, if_pos hlt, if_neg (by omega)]
    · simp
    · have hnone : [quote][j - inside.length]? = none :=
        List.getElem?_eq_none (by rw [List.length_singleton]; omega)
      rw [if_neg (by omega), if_neg (by omega), if_neg (by omega), hnone]
      rfl
  · next hlast =>
    rw [getElem?_blanked, if_neg]
    rintro ⟨hend, hquote⟩
    rw [List.getLast?_eq_getElem?, ← hend, Nat.add_sub_cancel] at hlast
    exact hlast hquote

/-- A region that begins with a quote is a literal. -/
theorem literal_iff (h : regionAt? u = some (kind, n)) : kind = .literal ↔ u[0]? = some quote := by
  cases opens_of_regionAt? h with
  | literal r => exact ⟨fun _ => rfl, fun _ => rfl⟩
  | line r | brace r | star r => exact ⟨nofun, nofun⟩

/-- A literal keeps its quotes in the stricter overlay. -/
theorem getElem?_masked_literal (u : Text) (j : Nat) :
    ((Piece.region .literal u).masked .commentsAndLiterals)[j]? =
      if 0 < j ∧ ¬(j + 1 = u.length ∧ u[j]? = some quote) then u[j]?.map blankByte else u[j]? := by
  cases u with
  | nil => simp [Piece.masked]
  | cons q tail =>
    show (q :: blankLiteral tail)[j]? = _
    cases j with
    | zero => rfl
    | succ j =>
      rw [List.getElem?_cons_succ, List.getElem?_cons_succ, getElem?_blankLiteral, List.length_cons]
      by_cases hend : j + 1 = tail.length ∧ tail[j]? = some quote
      · rw [if_pos hend, if_neg (by simpa using hend)]
      · rw [if_neg hend, if_pos ⟨Nat.succ_pos j, by simpa using hend⟩]

/-- **A region is shown at its own place.** -/
theorem mask_region_getElem? (hs : Outside t s) (hr : regionAt? (t.drop s) = some (kind, n))
    (hj : j < n) (mode : Mask) :
    (mask mode t)[s + j]? = ((Piece.region kind ((t.drop s).take n)).masked mode)[j]? := by
  have hdrop : (mask mode t).drop s = mask mode (t.drop s) :=
    hs.flatMap_pieces_drop (Piece.length_masked mode)
  have hlen : ((Piece.region kind ((t.drop s).take n)).masked mode).length = n := by
    rw [Piece.length_masked, Piece.text_region, List.length_take,
      Nat.min_eq_left (regionAt?_bounds hr).2]
  rw [← List.getElem?_drop, hdrop, mask_region hr, List.getElem?_append_left (by rwa [hlen])]

/-- A byte of code is shown as it is. -/
theorem mask_code_getElem? (hi : Outside t i) (hr : regionAt? (t.drop i) = none)
    (hlt : i < t.length) (mode : Mask) : (mask mode t)[i]? = t[i]? := by
  have hdrop : (mask mode t).drop i = mask mode (t.drop i) :=
    hi.flatMap_pieces_drop (Piece.length_masked mode)
  rw [List.drop_eq_getElem_cons hlt] at hdrop hr
  rw [mask_code hr] at hdrop
  rw [Text.getElem?_of_drop hdrop, List.getElem?_eq_getElem hlt]

theorem getElem?_take_drop (hj : j < n) : ((t.drop s).take n)[j]? = t[s + j]? := by
  rw [List.getElem?_take, if_pos hj, List.getElem?_drop]

theorem mask_getElem?_of_blanked (h : Blanked mode t i) :
    (mask mode t)[i]? = t[i]?.map blankByte := by
  obtain ⟨s, e, hs, he, hle, hlt, hliteral⟩ := h
  obtain ⟨kind, n, hr, rfl⟩ := regionEnd?_eq_some_iff.mp he
  obtain ⟨j, rfl⟩ := Nat.exists_eq_add_of_le hle
  have hj : j < n := by omega
  have hn := (regionAt?_bounds hr).2
  rw [mask_region_getElem? hs.outside hr hj]
  by_cases hk : kind = .literal
  · have hquote := (literal_iff hr).mp hk
    rw [List.getElem?_drop, Nat.add_zero] at hquote
    obtain ⟨rfl, hpos, hend⟩ := hliteral hquote
    subst hk
    rw [getElem?_masked_literal, getElem?_take_drop hj, List.length_take, Nat.min_eq_left hn, if_pos]
    exact ⟨by omega, fun h => hend ⟨by omega, h.2⟩⟩
  · rw [masked_comment hk, getElem?_blanked, getElem?_take_drop hj]

theorem mask_getElem?_of_not_blanked (h : ¬Blanked mode t i) : (mask mode t)[i]? = t[i]? := by
  rcases Nat.lt_or_ge i t.length with hi | hi
  · obtain ⟨s, hs, ⟨rfl, hr⟩ | ⟨kind, n, hr, hle, hlt⟩⟩ := exists_scanned hi
    · exact mask_code_getElem? hs hr hi mode
    · obtain ⟨j, rfl⟩ := Nat.exists_eq_add_of_le hle
      have hj : j < n := by omega
      have hn := (regionAt?_bounds hr).2
      -- the region would make the byte blank, were it not kept as a part of a literal
      have hkept : ¬(t[s]? = some quote → mode = .commentsAndLiterals ∧ s < s + j ∧
          ¬(s + j + 1 = s + n ∧ t[s + j]? = some quote)) := fun hliteral =>
        h ⟨s, s + n, scanned_iff_outside.mpr hs, regionEnd?_eq_some_iff.mpr ⟨kind, n, hr, rfl⟩, hle,
          hlt, hliteral⟩
      obtain ⟨hquote, hkept⟩ := Classical.not_imp.mp hkept
      have hk : kind = .literal := by
        rw [literal_iff hr, List.getElem?_drop, Nat.add_zero, hquote]
      subst hk
      rw [mask_region_getElem? hs hr hj]
      cases mode with
      | comments => exact getElem?_take_drop hj
      | commentsAndLiterals =>
        rw [getElem?_masked_literal, getElem?_take_drop hj, List.length_take, Nat.min_eq_left hn,
          if_neg]
        rintro ⟨hpos, hend⟩
        exact hkept ⟨rfl, by omega, fun h => hend ⟨by omega, h.2⟩⟩
  · rw [List.getElem?_eq_none (by rwa [length_mask]), List.getElem?_eq_none hi]

end

/-! ### Validity -/

section
variable {t x y : Text} {mode : Mask}

/-- An overlay shows a region in ASCII, or as it stands. -/
theorem masked_region_cases {kind : Region} {n : Nat} (h : regionAt? t = some (kind, n))
    (mode : Mask) : (Piece.region kind (t.take n)).masked mode = t.take n ∨
      ∀ b ∈ (Piece.region kind (t.take n)).masked mode, b < 0x80 := by
  by_cases hk : kind = .literal
  · subst hk
    cases mode with
    | comments => exact .inl rfl
    | commentsAndLiterals =>
      refine .inr fun b hb => ?_
      have hfill := isFiller_of_mem_region h hb
      simp only [isFiller, Bool.or_eq_true, beq_iff_eq] at hfill
      rcases hfill with ((rfl | rfl) | rfl) | rfl <;> decide
  · rw [masked_comment hk]
    refine .inr fun b hb => ?_
    rcases isBlank_of_mem_blanked hb with rfl | rfl | rfl <;> decide

/-- In a valid text a character begins where a region begins, and where it ends. -/
theorem uncut_region {kind : Region} {n : Nat} (h : regionAt? t = some (kind, n))
    (hvalid : Utf8.isValid t = true) :
    (t.head?).any Utf8.isContinuation = false ∧
      ((t.drop n).head?).any Utf8.isContinuation = false := by
  have hcut {i : Nat} (hb : Utf8.Boundary t i) :
      ((t.drop i).head?).any Utf8.isContinuation = false := by
    rw [List.head?_drop]
    exact hb.2
  refine ⟨by simpa using hcut (Utf8.boundary_zero hvalid), ?_⟩
  obtain ⟨hpos, hle⟩ := regionAt?_bounds h
  rcases region_edge h with hend | hbreak | ⟨b, hb, hedge⟩
  · rw [List.head?_drop, hend]
    rfl
  · rw [List.head?_drop, hbreak]
    rfl
  · have hascii : b < 0x80 := by
      simp only [isEdge, isFiller, Bool.or_eq_true, beq_iff_eq] at hedge
      rcases hedge with ((((rfl | rfl) | rfl) | rfl) | rfl) | rfl <;> decide
    have hbound := Utf8.boundary_succ_of_ascii hvalid hb hascii
    rw [Nat.sub_add_cancel hpos] at hbound
    exact hcut hbound

/-- **An overlay of a valid text is valid**, behind any bytes that make it one.  A character of code
is scanned byte by byte, so the bytes in front of the place belong to the statement. -/
theorem isValid_append_mask (h : Utf8.isValid (x ++ t) = true) (mode : Mask) :
    Utf8.isValid (x ++ mask mode t) = true := by
  induction t using piecewise generalizing x with
  | nil => rwa [mask_nil]
  | code b r hr ih =>
    rw [mask_code hr, ← List.singleton_append, ← List.append_assoc]
    exact ih (by rwa [List.append_assoc])
  | region t kind n hr ih =>
    obtain ⟨hpos, hle⟩ := regionAt?_bounds hr
    have hall := Utf8.isValid_iff_chars.mp h
    have hhead : (t.head?).any Utf8.isContinuation = false := by
      cases opens_of_regionAt? hr <;> rfl
    have ht : Utf8.Chars (fun _ => true) t := hall.right hhead
    obtain ⟨-, hend⟩ := uncut_region hr ht.isValid
    rw [← List.take_append_drop n t] at ht
    have hmasked : Utf8.Chars (fun _ => true) ((Piece.region kind (t.take n)).masked mode) := by
      rcases masked_region_cases hr mode with heq | hascii
      · rw [heq]
        exact ht.left hend
      · exact Utf8.chars_ascii fun b hb => ⟨hascii b hb, rfl⟩
    have hrest := ih (x := []) (ht.right hend).isValid
    rw [mask_region hr]
    exact ((hall.left hhead).append (hmasked.append (Utf8.isValid_iff_chars.mp hrest))).isValid

/-- **Main.**  An overlay of a valid text is valid and has its length.  Line breaks stay, and so does
every byte that is not blanked; every other byte is a space.  So a line number is the same in both.
The scan that finds the regions goes on with each of them, and it comes to the end of the text. -/
theorem mask_overlays (mode : Mask) (hvalid : Utf8.isValid t = true) :
    Utf8.isValid (mask mode t) = true ∧ (mask mode t).length = t.length ∧
      (∀ i, t[i]? = some newline ∨ t[i]? = some cr ∨ ¬Blanked mode t i →
        (mask mode t)[i]? = t[i]?) ∧
      (∀ i, Blanked mode t i → t[i]? ≠ some newline → t[i]? ≠ some cr →
        (mask mode t)[i]? = some space) ∧
      (∀ i, Text.lineOf (mask mode t) i = Text.lineOf t i) ∧
      (∀ i j, regionEnd? t i = some j → i < j ∧ j ≤ t.length) ∧ Scanned t t.length := by
  refine ⟨isValid_append_mask (x := []) hvalid mode, length_mask mode t, ?_, ?_, ?_, ?_,
    scanned_length t⟩
  · intro i hi
    by_cases hb : Blanked mode t i
    · rw [mask_getElem?_of_blanked hb]
      rcases hi with hi | hi | hi
      · rw [hi, Option.map_some, blankByte_of_break (.inl rfl)]
      · rw [hi, Option.map_some, blankByte_of_break (.inr rfl)]
      · exact absurd hb hi
    · exact mask_getElem?_of_not_blanked hb
  · intro i hb hline hcr
    have hlt : i < t.length := by
      obtain ⟨s, e, -, he, -, hlt, -⟩ := hb
      exact Nat.lt_of_lt_of_le hlt (regionEnd?_bounds he).2
    rw [List.getElem?_eq_getElem hlt] at hline hcr
    rw [mask_getElem?_of_blanked hb, List.getElem?_eq_getElem hlt, Option.map_some, blankByte,
      if_neg]
    rintro (h | h)
    · exact hline (congrArg some h)
    · exact hcr (congrArg some h)
  · intro i
    rw [Text.lineOf, Text.lineOf, breaks_take_mask]
  · exact fun i j h => regionEnd?_bounds h

end

/-- A literal that ends with two quotes before the end of its line, and a comment that is not
closed, with characters beyond ASCII in both. -/
def unclosedText : Text := "é 'ü''\n\x7bö\n"

theorem mask_overlays_unclosed :
    Utf8.isValid unclosedText = true ∧ Utf8.isValid (overlay unclosedText) = true ∧
      Blanked .commentsAndLiterals unclosedText 6 ∧ (overlay unclosedText)[6]? = some space ∧
      Scanned unclosedText unclosedText.length := by
  have hvalid : Utf8.isValid unclosedText = true := by decide +kernel
  have hblanked : Blanked .commentsAndLiterals unclosedText 6 :=
    ⟨3, 8, scanned_iff_outside.mpr (by decide +kernel), by decide +kernel, by decide, by decide,
      fun _ => ⟨rfl, by decide, by decide +kernel⟩⟩
  obtain ⟨hmask, -, -, hspace, -, -, hend⟩ := mask_overlays .commentsAndLiterals hvalid
  exact ⟨hvalid, hmask, hblanked, hspace 6 hblanked (by decide +kernel) (by decide +kernel), hend⟩

end PascalSurvey.Source
