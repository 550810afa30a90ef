/-
PascalSurvey/Proofs/Source/Remask.lean

The overlay of an overlay.  An overlay is cut where its text is cut: a byte of code stays one
(`regionAt?_mask_code`), a literal stays a literal of the same bytes (`regionAt?_mask_literal`), and
a comment falls apart into blank code.  So the pieces of the overlay are found piece by piece
(`pieces_mask`), and two overlays one over the other blank what either of them does (`mask_mask`).

Main result: each overlay is its own overlay, the two absorb each other, and a comment begins
nowhere in them (`mask_absorbs`).
-/
import PascalSurvey.Proofs.Source.Clean
import PascalSurvey.Proofs.Source.Scan

namespace PascalSurvey.Source

open Ascii

/-! ### The pieces of an overlay -/

section
variable {t : Text} {n : Nat}

theorem regionAt?_mask_code {b : UInt8} {r : Text} (h : regionAt? (b :: r) = none) (mode : Mask) :
    regionAt? (b :: mask mode r) = none := by
  cases mode with
  | comments => exact regionAt?_clean_code h
  | commentsAndLiterals => exact regionAt?_overlay_code h

theorem regionAt?_mask_literal (h : regionAt? t = some (.literal, n)) (mode : Mask) :
    regionAt? (mask mode t) = some (.literal, n) := by
  cases mode with
  | comments =>
    have := regionAt?_clean_literal h
    rwa [← clean_literal h] at this
  | commentsAndLiterals => exact regionAt?_overlay_literal h

/-- What becomes of a piece in an overlay. -/
def Piece.overlaid (mode : Mask) : Piece → List Piece
  | .code b => [.code b]
  | .region .literal s => [.region .literal ((Piece.region .literal s).masked mode)]
  | .region _ s => (blanked s).map .code

theorem overlaid_comment {kind : Region} (h : kind ≠ .literal) (mode : Mask) (s : Text) :
    (Piece.region kind s).overlaid mode = (blanked s).map .code := by
  cases kind with
  | literal => exact absurd rfl h
  | lineComment | braceComment | starComment => rfl

/-- **The pieces of an overlay are what becomes of the pieces of the text.** -/
theorem pieces_mask (mode : Mask) (t : Text) :
    pieces (mask mode t) = (pieces t).flatMap (Piece.overlaid mode) := by
  induction t using piecewise_clean with
  | nil => rw [mask_nil, pieces_nil, List.flatMap_nil]
  | code b r hr ih =>
    rw [mask_code hr, pieces_code (regionAt?_mask_code hr mode), ih, pieces_code hr]
    rfl
  | comment t kind n hr hk ih =>
    rw [mask_region hr, masked_comment hk, pieces_codes fun b hb => regionAt?_of_mem_blanked hb,
      ih, pieces_region hr, List.flatMap_cons, overlaid_comment hk]
  | literal t n hr ih =>
    have hlit := regionAt?_mask_literal hr mode
    have hlen : ((Piece.region .literal (t.take n)).masked mode).length = n := by
      rw [Piece.length_masked, Piece.text_region, List.length_take,
        Nat.min_eq_left (regionAt?_bounds hr).2]
    rw [pieces_region hlit, mask_region hr, List.take_left' hlen, List.drop_left' hlen, ih,
      pieces_region hr]
    rfl

end

/-! ### One overlay over another -/

/-- The overlay that blanks what one of two overlays blanks. -/
def Mask.join : Mask → Mask → Mask
  | .comments, .comments => .comments
  | .commentsAndLiterals, _ | _, .commentsAndLiterals => .commentsAndLiterals

theorem blankByte_blankByte (b : UInt8) : blankByte (blankByte b) = blankByte b := by
  by_cases h : b = newline ∨ b = cr
  · rw [blankByte_of_break h, blankByte_of_break h]
  · have hspace : blankByte b = space := if_neg h
    rw [hspace]
    rfl

theorem blanked_blanked (s : Text) : blanked (blanked s) = blanked s := by
  rw [blanked, blanked, List.map_map]
  exact List.map_congr_left fun b _ => blankByte_blankByte b

theorem blankLiteral_blankLiteral (s : Text) : blankLiteral (blankLiteral s) = blankLiteral s := by
  by_cases hlast : s.getLast? = some quote
  · obtain ⟨inside, rfl⟩ := List.getLast?_eq_some_iff.mp hlast
    simp only [blankLiteral, List.getLast?_concat, List.dropLast_concat, if_true, blanked_blanked]
  · -- no byte is made a quote
    have hblank : (blanked s).getLast? ≠ some quote := fun h => by
      rcases isBlank_of_mem_blanked (List.mem_of_getLast? h) with hb | hb | hb <;>
        exact absurd hb (by decide)
    have hblanked : blankLiteral s = blanked s := if_neg hlast
    rw [hblanked, blankLiteral, if_neg hblank, blanked_blanked]

/-- A literal that is blanked twice is blanked once, by the stricter overlay. -/
theorem masked_masked_literal (mode mode' : Mask) (s : Text) :
    (Piece.region .literal ((Piece.region .literal s).masked mode')).masked mode =
      (Piece.region .literal s).masked (mode.join mode') := by
  match mode, mode', s with
  | .comments, .comments, _ | .comments, .commentsAndLiterals, _
  | .commentsAndLiterals, .comments, _ | .commentsAndLiterals, .commentsAndLiterals, [] => rfl
  | .commentsAndLiterals, .commentsAndLiterals, q :: tail =>
    exact congrArg (q :: ·) (blankLiteral_blankLiteral tail)

theorem flatMap_masked_overlaid (mode mode' : Mask) (p : Piece) :
    (p.overlaid mode').flatMap (Piece.masked mode) = p.masked (mode.join mode') := by
  cases p with
  | code b => rfl
  | region kind s =>
    by_cases hk : kind = .literal
    · subst hk
      exact (List.flatMap_singleton _ _).trans (masked_masked_literal mode mode' s)
    · rw [overlaid_comment hk, masked_comment hk, List.flatMap_map]
      exact List.flatMap_singleton' (blanked s)

/-- **An overlay of an overlay** is the overlay that blanks what one of the two blanks. -/
theorem mask_mask (mode mode' : Mask) (t : Text) :
    mask mode (mask mode' t) = mask (mode.join mode') t := by
  rw [mask, pieces_mask, List.flatMap_assoc, mask]
  simp only [flatMap_masked_overlaid]

/-! ### No comment in an overlay -/

theorem not_comment_of_mem_overlaid {p : Piece} {mode : Mask} {kind : Region} {s : Text}
    (h : .region kind s ∈ p.overlaid mode) : kind = .literal := by
  cases p with
  | code b => cases List.mem_singleton.mp h
  | region kind' s' =>
    by_cases hk : kind' = .literal
    · subst hk
      exact (Piece.region.inj (List.mem_singleton.mp h)).1
    · rw [overlaid_comment hk] at h
      obtain ⟨b, -, hb⟩ := List.mem_map.mp h
      cases hb

/-- **Where a scan of an overlay stops, no comment begins.** -/
theorem literal_of_scanned_mask {mode : Mask} {t : Text} {i n : Nat} {kind : Region}
    (h : Scanned (mask mode t) i) (hr : regionAt? ((mask mode t).drop i) = some (kind, n)) :
    kind = .literal := by
  obtain ⟨ps, hps, -⟩ := h.outside.pieces_eq
  have hmem : .region kind (((mask mode t).drop i).take n) ∈ pieces (mask mode t) := by
    rw [hps, pieces_region hr]
    exact List.mem_append_right ps List.mem_cons_self
  rw [pieces_mask] at hmem
  obtain ⟨p, -, hp⟩ := List.mem_flatMap.mp hmem
  exact not_comment_of_mem_overlaid hp

/-- **Main.**  An overlay of a text is its own overlay, and with or without the literals first, both
overlays in a row give the stricter one.  No comment is left in an overlay and none comes in: what a
scan of it finds are literals. -/
theorem mask_absorbs (t : Text) :
    mask .comments (mask .comments t) = mask .comments t ∧
      mask .commentsAndLiterals (mask .commentsAndLiterals t) = mask .commentsAndLiterals t ∧
      mask .commentsAndLiterals (mask .comments t) = mask .commentsAndLiterals t ∧
      mask .comments (mask .commentsAndLiterals t) = mask .commentsAndLiterals t ∧
      ∀ mode i kind n, Scanned (mask mode t) i →
        regionAt? ((mask mode t).drop i) = some (kind, n) → kind = .literal :=
  ⟨mask_mask .comments .comments t, mask_mask .commentsAndLiterals .commentsAndLiterals t,
    mask_mask .commentsAndLiterals .comments t, mask_mask .comments .commentsAndLiterals t,
    fun _ _ _ _ h hr => literal_of_scanned_mask h hr⟩

/-- A comment between slashes, and a literal of what opens a comment in front of one that does. -/
def openersText : Text := "x/\x7b'\x7d/'(*'\x7b''"

theorem mask_absorbs_openers :
    mask .comments (overlay openersText) = overlay openersText ∧
      overlay (mask .comments openersText) = overlay openersText ∧
      Scanned (overlay openersText) 6 ∧
      ∀ kind n, regionAt? ((overlay openersText).drop 6) = some (kind, n) → kind = .literal := by
  have hscan : Scanned (overlay openersText) 6 := scanned_iff_outside.mpr (by decide +kernel)
  obtain ⟨-, -, hstrict, hloose, hliteral⟩ := mask_absorbs openersText
  exact ⟨hloose, hstrict, hscan, fun kind n => hliteral .commentsAndLiterals 6 kind n hscan⟩

end PascalSurvey.Source
