/-
PascalSurvey/Proofs/Source/Parens.lean

Closing parentheses.  The parenthesis that closes another one stays where it is when more text
follows (`closing?_append`), and it is the same one in a text and in its overlay
(`closing?_overlay`): a comment of the text is blank in the overlay, and a literal of the text
is a literal of the overlay that ends at the same offset.
-/
import PascalSurvey.Proofs.Source.Overlay

namespace PascalSurvey.Source

open Ascii

/-- A parenthesis without a star behind it is code. -/
theorem regionAt?_lparen {r : Text} (h : r[0]? ≠ some asterisk) :
    regionAt? (lparen :: r) = none := by
  rcases hr : regionAt? (lparen :: r) with - | ⟨kind, n⟩
  · rfl
  · generalize hm : lparen :: r = m at hr
    cases opens_of_regionAt? hr with
    | star q =>
      obtain rfl := (List.cons.inj hm).2
      exact absurd rfl h
    | line q | brace q | literal q => exact absurd (List.cons.inj hm).1 (by decide)

/-! ### In longer texts -/

/-- The closing parenthesis is one, and it stands in the text. -/
theorem closing?_spec {depth : Nat} {t : Text} {n : Nat} (h : closing? depth t = some n) :
    t[n]? = some rparen := by
  fun_induction closing? depth t generalizing n with
  | case1 => cases h
  | case2 depth b r kind k hr ih =>
    obtain ⟨j, hj, rfl⟩ := Option.map_eq_some_iff.mp h
    have hk := (regionAt?_bounds hr).1
    have := ih hj
    rw [List.getElem?_drop] at this
    rw [show j + k = (k - 1 + j) + 1 by omega, List.getElem?_cons_succ]
    exact this
  | case3 depth r hr ih =>
    obtain ⟨j, hj, rfl⟩ := Option.map_eq_some_iff.mp h
    exact ih hj
  | case4 depth r hd hr _ =>
    cases h
    rfl
  | case5 depth r hd hr _ ih =>
    obtain ⟨j, hj, rfl⟩ := Option.map_eq_some_iff.mp h
    exact ih hj
  | case6 depth b r hr _ _ ih =>
    obtain ⟨j, hj, rfl⟩ := Option.map_eq_some_iff.mp h
    exact ih hj

/-- A closing parenthesis that is found is found in any longer text. -/
theorem closing?_append {depth : Nat} {t : Text} {n : Nat} (u : Text)
    (h : closing? depth t = some n) : closing? depth (t ++ u) = some n := by
  -- a byte that begins no region begins none in a longer text, unless it is the last one
  have hcode {b : UInt8} {r : Text} (hr : regionAt? (b :: r) = none) {d j : Nat}
      (hj : closing? d r = some j) : regionAt? (b :: (r ++ u)) = none := by
    cases r with
    | nil => simp [closing?] at hj
    | cons c r => exact regionAt?_append_eq_none u hr
  fun_induction closing? depth t generalizing n with
  | case1 => cases h
  | case2 depth b r kind k hr ih =>
    obtain ⟨j, hj, rfl⟩ := Option.map_eq_some_iff.mp h
    have hk : k - 1 < r.length := by
      rcases Nat.lt_or_ge (k - 1) r.length with hlt | hge
      · exact hlt
      · rw [List.drop_eq_nil_of_le hge] at hj
        simp [closing?] at hj
    have hpos := (regionAt?_bounds hr).1
    rw [List.cons_append, closing?, ← List.cons_append,
      regionAt?_append u hr (by rw [List.length_cons]; omega)]
    simp only [List.drop_append_of_le_length (Nat.le_of_lt hk), ih hj]
    rfl
  | case3 depth r hr ih =>
    obtain ⟨j, hj, rfl⟩ := Option.map_eq_some_iff.mp h
    rw [List.cons_append, closing?, hcode hr hj]
    simp [ih hj]
  | case4 depth r hd hr hne =>
    rw [List.cons_append, closing?, show regionAt? (rparen :: (r ++ u)) = none from rfl]
    simpa [hd, hne] using h
  | case5 depth r hd hr hne ih =>
    obtain ⟨j, hj, rfl⟩ := Option.map_eq_some_iff.mp h
    rw [List.cons_append, closing?, hcode hr hj]
    simp [hd, hne, ih hj]
  | case6 depth b r hr hne hne' ih =>
    obtain ⟨j, hj, rfl⟩ := Option.map_eq_some_iff.mp h
    rw [List.cons_append, closing?, hcode hr hj]
    simp [hne, hne', ih hj]

/-! ### In overlays -/

theorem literalTail_next (r : Text) : r[literalTail r]? ≠ some quote := by
  fun_induction literalTail r with
  | case1 => simp
  | case2 r ih => simpa [Nat.add_comm 2] using ih
  | case3 r hr =>
    cases r with
    | nil => simp
    | cons c r =>
      intro hc
      obtain rfl : c = quote := Option.some.inj hc
      exact hr r rfl
  | case4 r =>
    show some newline ≠ some quote
    decide
  | case5 b r _ _ _ ih => simpa [Nat.add_comm 1] using ih

theorem literalTail_no_break (r : Text) : newline ∉ r.take (literalTail r) := by
  have hquote : newline ≠ quote := by decide
  fun_induction literalTail r with
  | case1 => simp
  | case2 r ih => simpa [Nat.add_comm 2, hquote] using ih
  | case3 r hr => simpa using hquote
  | case4 => simp
  | case5 b r _ _ hb ih =>
    have hne : newline ≠ b := fun h => hb h.symm
    simpa [Nat.add_comm 1, hne] using ih

/-- Blanks inside a literal lead to its end. -/
theorem literalTail_blanks {bs : Text} (hbs : ∀ b ∈ bs, b ≠ quote ∧ b ≠ newline) (r : Text) :
    literalTail (bs ++ r) = bs.length + literalTail r := by
  induction bs with
  | nil => simp
  | cons b bs ih =>
    obtain ⟨hquote, hbreak⟩ := hbs b List.mem_cons_self
    rw [List.cons_append, literalTail, ih fun c hc => hbs c (List.mem_cons_of_mem _ hc),
      List.length_cons]
    · omega
    · rintro r' rfl
      exact absurd rfl hquote
    · exact hquote
    · exact hbreak

theorem ne_quote_of_mem_blanked {t : Text} (ht : newline ∉ t) :
    ∀ b ∈ blanked t, b ≠ quote ∧ b ≠ newline := by
  intro b hb
  obtain ⟨a, ha, rfl⟩ := List.mem_map.mp hb
  unfold blankByte
  split
  · next h =>
    rcases h with rfl | rfl
    · exact absurd ha ht
    · decide
  · decide

/-- A byte of the overlay that is no filler stands in the text. -/
theorem getElem?_of_overlay {t : Text} {i : Nat} {b : UInt8} (hb : (overlay t)[i]? = some b)
    (hf : isFiller b = false) : t[i]? = some b := by
  rw [← overlay_getElem?_of_isCode (isCode_of_not_filler hb hf), hb]

/-- An overlay begins with a quote only where a literal begins. -/
theorem overlay_head_quote {t : Text} (h : (overlay t)[0]? = some quote) : t[0]? = some quote := by
  induction t using piecewise with
  | nil => simp at h
  | code b r hr _ =>
    rw [overlay_code hr] at h
    exact h
  | region t kind n hr _ =>
    cases opens_of_regionAt? hr with
    | literal r => rfl
    | line r | brace r | star r =>
      obtain ⟨hpos, hle⟩ := regionAt?_bounds hr
      rw [overlay_region hr, List.getElem?_append_left (by
        rw [Piece.length_masked, Piece.text_region, List.length_take]
        omega)] at h
      have := isBlank_of_mem_comment (by decide) (List.mem_of_getElem? h)
      cases this

theorem literalTail_close {m : Text} (h : m[0]? ≠ some quote) : literalTail (quote :: m) = 1 := by
  unfold literalTail
  split
  · next heq => cases heq
  · next heq =>
    obtain rfl := (List.cons.inj heq).2
    exact absurd rfl h
  · rfl
  · next heq => cases heq
  · next hquote _ heq => exact absurd (List.cons.inj heq).1.symm hquote

/-- A literal of the text is as long in the overlay. -/
theorem literalTail_overlay (r : Text) :
    literalTail (blankLiteral (r.take (literalTail r)) ++ overlay (r.drop (literalTail r))) =
      literalTail r := by
  have hlen : (r.take (literalTail r)).length = literalTail r := by
    rw [List.length_take, Nat.min_eq_left (literalTail_le r)]
  have hbreak := literalTail_no_break r
  unfold blankLiteral
  split
  · next hlast =>
    -- the last quote closes the literal, for no quote stands behind it
    have hnext : (overlay (r.drop (literalTail r)))[0]? ≠ some quote := by
      intro h
      have := overlay_head_quote h
      rw [List.getElem?_drop] at this
      exact literalTail_next r this
    obtain ⟨inside, heq⟩ := List.getLast?_eq_some_iff.mp hlast
    rw [heq, List.length_append, List.length_singleton] at hlen
    rw [heq] at hbreak ⊢
    rw [List.dropLast_concat, List.append_assoc, List.singleton_append,
      literalTail_blanks (ne_quote_of_mem_blanked fun h => hbreak (List.mem_append_left _ h)),
      length_blanked, literalTail_close hnext, hlen]
  · next hlast =>
    -- the literal is not closed on its line
    have hend : literalTail (overlay (r.drop (literalTail r))) = 0 := by
      rcases literalTail_last r with h | h | ⟨k, hk, h⟩
      · rw [List.drop_eq_nil_of_le (List.getElem?_eq_none_iff.mp h), overlay_nil]
        rfl
      · rw [Text.drop_of_getElem? h,
          overlay_code (regionAt?_eq_none _ (by decide) (by decide) (by decide) (by decide))]
        rfl
      · refine absurd ?_ hlast
        rw [List.getLast?_eq_getElem?, hlen, hk, Nat.add_sub_cancel, List.getElem?_take,
          if_pos (Nat.lt_succ_self k)]
        exact h
    rw [literalTail_blanks (ne_quote_of_mem_blanked hbreak), length_blanked, hlen, hend, Nat.add_zero]

theorem regionAt?_overlay_literal {t : Text} {n : Nat} (h : regionAt? t = some (.literal, n)) :
    regionAt? (overlay t) = some (.literal, n) := by
  cases opens_of_regionAt? h with
  | literal r =>
    have hmask : overlay (quote :: r) =
        quote :: (blankLiteral (r.take (literalTail r)) ++ overlay (r.drop (literalTail r))) := by
      rw [overlay_region h, Nat.add_comm 1, List.take_succ_cons, List.drop_succ_cons]
      rfl
    rw [hmask]
    show some (Region.literal, 1 + literalTail _) = _
    rw [literalTail_overlay]

/-- A byte that begins no region of the text begins none of the overlay. -/
theorem regionAt?_overlay_code {b : UInt8} {r : Text} (h : regionAt? (b :: r) = none) :
    regionAt? (b :: overlay r) = none := by
  rcases hr : regionAt? (b :: overlay r) with - | ⟨kind, n⟩
  · rfl
  · -- the byte behind it would be the same in the text
    have hnext {c : UInt8} {q : Text} (hc : overlay r = c :: q) (hf : isFiller c = false) :
        ∃ q', r = c :: q' := by
      have hat := getElem?_of_overlay (t := r) (i := 0) (by rw [hc]; rfl) hf
      rw [← List.head?_eq_getElem?] at hat
      exact List.head?_eq_some_iff.mp hat
    generalize hm : b :: overlay r = m at hr
    cases opens_of_regionAt? hr with
    | line q =>
      obtain ⟨rfl, hq⟩ := List.cons.inj hm
      obtain ⟨q', rfl⟩ := hnext hq (by decide)
      cases h
    | star q =>
      obtain ⟨rfl, hq⟩ := List.cons.inj hm
      obtain ⟨q', rfl⟩ := hnext hq (by decide)
      cases h
    | brace q | literal q =>
      obtain ⟨rfl, -⟩ := List.cons.inj hm
      cases h

theorem closing?_region {depth : Nat} {t : Text} {kind : Region} {n : Nat}
    (h : regionAt? t = some (kind, n)) :
    closing? depth t = (closing? depth (t.drop n)).map (· + n) := by
  obtain ⟨hpos, hle⟩ := regionAt?_bounds h
  obtain ⟨b, r, rfl⟩ := List.exists_cons_of_length_pos (by omega : 0 < t.length)
  obtain ⟨k, rfl⟩ := Nat.exists_eq_succ_of_ne_zero (by omega : n ≠ 0)
  rw [closing?, h]
  rfl

theorem closing?_blanks {depth : Nat} {bs : Text} (hbs : ∀ b ∈ bs, isBlank b = true) (m : Text) :
    closing? depth (bs ++ m) = (closing? depth m).map (· + bs.length) := by
  induction bs with
  | nil => simp
  | cons b bs ih =>
    have hb := hbs b List.mem_cons_self
    -- a blank is neither a parenthesis nor the beginning of a region
    have hne {c : UInt8} (hc : isBlank c = false) : b ≠ c := by
      rintro rfl
      rw [hb] at hc
      cases hc
    have hcode : regionAt? (b :: (bs ++ m)) = none :=
      regionAt?_eq_none _ (hne rfl) (hne rfl) (hne rfl) (hne rfl)
    rw [List.cons_append, closing?, hcode]
    simp only [if_neg (hne (c := lparen) rfl), if_neg (hne (c := rparen) rfl),
      ih fun c hc => hbs c (List.mem_cons_of_mem _ hc), Option.map_map]
    rfl

/-- **A parenthesis is closed at the same offset in the text and in its overlay.** -/
theorem closing?_overlay (depth : Nat) (t : Text) : closing? depth (overlay t) = closing? depth t := by
  induction t using piecewise generalizing depth with
  | nil => rw [overlay_nil]
  | code b r hr ih =>
    rw [overlay_code hr, closing?, closing?, hr, regionAt?_overlay_code hr]
    simp only [ih]
  | region t kind n hr ih =>
    rw [closing?_region hr, ← ih]
    by_cases hk : kind = .literal
    · subst hk
      have hout : Outside t n := by simpa using (outside_zero t).region hr
      rw [closing?_region (regionAt?_overlay_literal hr), hout.overlay_drop]
    · rw [overlay_region hr, closing?_blanks fun b => isBlank_of_mem_comment hk]
      simp [Nat.min_eq_left (regionAt?_bounds hr).2]

end PascalSurvey.Source
