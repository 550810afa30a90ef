/-
PascalSurvey/Proofs/Source/Crlf.lean

Source texts with line ends of two bytes.  If all literals are closed, the overlay of the longer
text is the overlay with the longer line ends (`mask_crlf`): a comment that ends with its line takes
the carriage return along, which stays in the overlay, and every other region ends where it ended.
In such overlays keywords are found at the same places (`findWordEnd?_crlf`, `findLine?_crlf`).
-/
import PascalSurvey.Proofs.Source.Keyword
import PascalSurvey.Proofs.Source.Removal
import PascalSurvey.Proofs.Source.Split
import PascalSurvey.Proofs.Text.Crlf

namespace PascalSurvey.Source

open Ascii Text

/-! ### Overlays -/

theorem blanked_crlf (t : Text) : blanked (crlf t) = crlf (blanked t) := by
  refine map_crlf rfl rfl (fun b hb => ?_) t
  rw [blankByte]
  split
  · exact hb
  · decide

section
variable {t u v : Text} {kind : Region} {n : Nat}

/-- A comment does not end within its line. -/
theorem untilBreak_skip (hu : newline ∉ u) (x : Text) :
    untilBreak (u ++ x) = u.length + untilBreak x := by
  induction u with
  | nil => exact (Nat.zero_add _).symm
  | cons b u ih =>
    rw [List.mem_cons, not_or] at hu
    rw [List.cons_append, untilBreak, ih hu.2, List.length_cons]
    · omega
    · exact fun h => hu.1 h.symm

theorem throughBrace_crlf (t : Text) : throughBrace (crlf t) = crlfOffset t (throughBrace t) := by
  fun_induction throughBrace t with
  | case1 => rfl
  | case2 r =>
    rw [crlf_cons (by decide), ← Nat.zero_add 1, crlfOffset_cons]
    rfl
  | case3 b r hb ih =>
    rw [Nat.add_comm, crlfOffset_cons, ← ih]
    by_cases hline : b = newline
    · subst hline
      show 1 + (1 + throughBrace (crlf r)) = _
      rw [if_pos rfl]
      omega
    · rw [crlf_cons hline, throughBrace, if_neg hline]
      · omega
      · exact hb

theorem throughStar_crlf (t : Text) : throughStar (crlf t) = crlfOffset t (throughStar t) := by
  fun_induction throughStar t with
  | case1 => rfl
  | case2 r => rfl
  | case3 b r hb ih =>
    rw [Nat.add_comm, crlfOffset_cons, ← ih]
    by_cases hline : b = newline
    · subst hline
      have hcr : throughStar (cr :: newline :: crlf r) = 1 + throughStar (newline :: crlf r) := by
        rw [throughStar]
        exact fun _ h => absurd h (by decide)
      have hnewline : throughStar (newline :: crlf r) = 1 + throughStar (crlf r) := by
        rw [throughStar]
        exact fun _ h => absurd h (by decide)
      rw [crlf_newline, hcr, hnewline, if_pos rfl]
      omega
    · rw [crlf_cons hline, throughStar, if_neg hline]
      · omega
      · rintro q rfl hq
        have hhead : (crlf r)[0]? = some rparen := by
          rw [hq]
          rfl
        obtain ⟨r', rfl⟩ := cons_of_crlf (by decide) (by decide) hhead
        exact hb r' rfl rfl

/-- A closed literal stands on one line, and ends where it ended. -/
theorem literalTail_crlf (r : Text) (h : (r.take (literalTail r)).count quote % 2 = 1) :
    literalTail (crlf r) = literalTail r ∧ newline ∉ r.take (literalTail r) := by
  fun_induction literalTail r with
  | case1 => cases h
  | case2 r ih =>
    change (List.take (2 + literalTail r) (quote :: quote :: r)).count quote % 2 = 1 at h
    rw [Nat.add_comm, List.take_succ_cons, List.take_succ_cons, List.count_cons_self,
      List.count_cons_self] at h
    obtain ⟨hsame, hline⟩ := ih (by omega)
    rw [crlf_cons (by decide), crlf_cons (by decide), Nat.add_comm, List.take_succ_cons,
      List.take_succ_cons, List.mem_cons, List.mem_cons, not_or, not_or]
    refine ⟨?_, by decide, by decide, hline⟩
    show 2 + literalTail (crlf r) = _
    rw [hsame, Nat.add_comm]
  | case3 r hr =>
    rw [List.take_succ_cons, List.take_zero, List.mem_singleton]
    refine ⟨?_, by decide⟩
    rw [crlf_cons (by decide), literalTail]
    rintro q hq
    have hhead : (crlf r)[0]? = some quote := by
      rw [hq]
      rfl
    obtain ⟨r', rfl⟩ := cons_of_crlf (by decide) (by decide) hhead
    exact hr r' rfl
  | case4 => cases h
  | case5 b r hpair hquote hline ih =>
    have hb : b ≠ newline := fun heq => hline heq
    have hq : b ≠ quote := fun heq => hquote heq
    rw [Nat.add_comm, List.take_succ_cons, List.count_cons_of_ne hq] at h
    obtain ⟨hsame, hmem⟩ := ih h
    rw [crlf_cons hb, literalTail, hsame, Nat.add_comm, List.take_succ_cons]
    · exact ⟨rfl, by simpa [Ne.symm hb] using hmem⟩
    · rintro q rfl _
      exact hq rfl
    · exact hq
    · exact hb

/-- Behind its opening quote a closed literal has an odd number of quotes. -/
theorem count_tail_of_isClosed {r : Text}
    (h : (Piece.region .literal ((quote :: r).take (1 + literalTail r))).isClosed = true) :
    (r.take (literalTail r)).count quote % 2 = 1 := by
  have heven : ((quote :: r).take (1 + literalTail r)).count quote % 2 = 0 := by
    simpa [Piece.isClosed] using h
  rw [Nat.add_comm, List.take_succ_cons, List.count_cons_self] at heven
  omega

/-- A region keeps its size, but for a carriage return that a line comment takes along. -/
theorem regionAt?_crlf (h : regionAt? t = some (kind, n)) (hline : kind ≠ .lineComment)
    (hclosed : (Piece.region kind (t.take n)).isClosed = true) :
    regionAt? (crlf t) = some (kind, crlfOffset t n) := by
  cases opens_of_regionAt? h with
  | line r => exact absurd rfl hline
  | brace r =>
    rw [crlf_cons (by decide), Nat.add_comm, crlfOffset_cons_of_ne (by decide), ← throughBrace_crlf,
      Nat.add_comm]
    rfl
  | star r =>
    rw [crlf_cons (by decide), crlf_cons (by decide), Nat.add_comm,
      crlfOffset_cons_of_ne (by decide), crlfOffset_cons_of_ne (by decide), ← throughStar_crlf,
      Nat.add_assoc, Nat.add_comm]
    rfl
  | literal r =>
    obtain ⟨hsame, hmem⟩ := literalTail_crlf r (count_tail_of_isClosed hclosed)
    rw [crlf_cons (by decide), Nat.add_comm, crlfOffset_cons_of_ne (by decide),
      crlfOffset_line hmem, ← hsame, Nat.add_comm]
    rfl

theorem newline_mem_masked_iff {mode : Mask} {p : Piece} :
    newline ∈ p.masked mode ↔ newline ∈ p.text := by
  have hmem (x : Text) : newline ∈ x ↔ true ∈ x.map (· == newline) := by simp
  rw [hmem, hmem, map_newline_masked]

/-- An overlay shows a region with the line ends that it has. -/
theorem masked_crlf (mode : Mask) (h : regionAt? t = some (kind, n))
    (hclosed : (Piece.region kind (t.take n)).isClosed = true) :
    (Piece.region kind (crlf (t.take n))).masked mode =
      crlf ((Piece.region kind (t.take n)).masked mode) := by
  cases opens_of_regionAt? h with
  | line r | brace r | star r => exact blanked_crlf _
  | literal r =>
    have hmem : newline ∉ (quote :: r).take (1 + literalTail r) := by
      rw [Nat.add_comm, List.take_succ_cons, List.mem_cons, not_or]
      exact ⟨by decide, (literalTail_crlf r (count_tail_of_isClosed hclosed)).2⟩
    have hshown : newline ∉
        (Piece.region .literal ((quote :: r).take (1 + literalTail r))).masked mode :=
      mt newline_mem_masked_iff.mp hmem
    rw [crlf_line hmem, crlf_line hshown]

theorem mask_cr (mode : Mask) (r : Text) : mask mode (cr :: r) = cr :: mask mode r :=
  mask_code (regionAt?_eq_none r (by decide) (by decide) (by decide) (by decide)) mode

theorem mask_newline (mode : Mask) (r : Text) : mask mode (newline :: r) = newline :: mask mode r :=
  mask_code (regionAt?_eq_none r (by decide) (by decide) (by decide) (by decide)) mode

/-- A line comment takes the carriage return along, and shows it as it stands. -/
theorem mask_lineComment_crlf (mode : Mask) (r : Text)
    (ih : mask mode (crlf (r.drop (untilBreak r))) = crlf (mask mode (r.drop (untilBreak r)))) :
    mask mode (crlf (slash :: slash :: r)) = crlf (mask mode (slash :: slash :: r)) := by
  have hcomment (u x : Text) (hu : untilBreak (u ++ x) = u.length) :
      mask mode (slash :: slash :: (u ++ x)) = blanked (slash :: slash :: u) ++ mask mode x := by
    have hregion : regionAt? (slash :: slash :: (u ++ x)) = some (.lineComment, 2 + u.length) := by
      rw [← hu]
      rfl
    rw [mask_region hregion, Nat.add_comm, List.take_succ_cons, List.take_succ_cons, List.take_left,
      List.drop_succ_cons, List.drop_succ_cons, List.drop_left]
    rfl
  have hslash (x : Text) : crlf (slash :: slash :: x) = slash :: slash :: crlf x := by
    rw [crlf_cons (by decide), crlf_cons (by decide)]
  have hend {u v : Text} (hu : newline ∉ u) : untilBreak (u ++ newline :: v) = u.length :=
    untilBreak_skip hu _
  by_cases hmem : newline ∈ r
  · obtain ⟨u, v, rfl, hu⟩ := List.eq_append_cons_of_mem hmem
    rw [hend hu, List.drop_left, crlf_newline, mask_cr, mask_newline, mask_newline,
      crlf_newline] at ih
    have ih := (List.cons.inj (List.cons.inj ih).2).2
    have hcr : blanked (slash :: slash :: (u ++ [cr])) = blanked (slash :: slash :: u) ++ [cr] := by
      rw [← List.cons_append, ← List.cons_append, blanked, List.map_append]
      rfl
    rw [hslash, crlf_line_append hu, hcomment _ _ (hend (newline_not_mem_concat_cr hu)),
      hcomment _ _ (hend hu), hcr, mask_newline, mask_newline, crlf_append, ← blanked_crlf, hslash,
      crlf_line hu, crlf_newline, ih, List.append_assoc]
    rfl
  · have hline := hcomment r [] (untilBreak_skip hmem [])
    rw [List.append_nil, mask_nil, List.append_nil] at hline
    rw [hslash, crlf_line hmem, hline, ← blanked_crlf, hslash, crlf_line hmem]

/-- **An overlay has the line ends of its text**, if all literals are closed. -/
theorem mask_crlf (mode : Mask) (t : Text) (hclosed : ∀ p ∈ pieces t, p.isClosed = true) :
    mask mode (crlf t) = crlf (mask mode t) := by
  induction t using piecewise with
  | nil => rw [crlf_nil, mask_nil, crlf_nil]
  | code b r hr ih =>
    rw [pieces_code hr] at hclosed
    have ih := ih fun p hp => hclosed p (List.mem_cons_of_mem _ hp)
    rw [mask_code hr]
    by_cases hb : b = newline
    · subst hb
      rw [crlf_newline, mask_cr, mask_newline, ih, crlf_newline]
    · -- the byte behind it stays, or is a carriage return, which opens no comment
      have hcode : regionAt? (b :: crlf r) = none := by
        refine regionAt?_code_behind hr (fun h hhead => ?_) fun h hhead => ?_
        · obtain ⟨r', rfl⟩ := cons_of_crlf (by decide) (by decide) hhead
          subst h
          cases hr
        · obtain ⟨r', rfl⟩ := cons_of_crlf (by decide) (by decide) hhead
          subst h
          cases hr
      rw [crlf_cons hb, mask_code hcode, ih, crlf_cons hb]
  | region t kind n hr ih =>
    rw [pieces_region hr] at hclosed
    have hhere := hclosed _ List.mem_cons_self
    have ih := ih fun p hp => hclosed p (List.mem_cons_of_mem _ hp)
    by_cases hkind : kind = .lineComment
    · subst hkind
      cases opens_of_regionAt? hr with
      | line r =>
        rw [Nat.add_comm, List.drop_succ_cons, List.drop_succ_cons] at ih
        exact mask_lineComment_crlf mode r ih
    · -- any other region ends where it ended
      rw [mask_region (regionAt?_crlf hr hkind hhere), take_crlf, drop_crlf, ih, mask_region hr,
        crlf_append, masked_crlf mode hr hhere]

/-- An offset goes where it goes in the text. -/
theorem crlfOffset_mask (mode : Mask) (t : Text) (n : Nat) :
    crlfOffset (mask mode t) n = crlfOffset t n := by
  rw [crlfOffset, crlfOffset, breaks_take_mask]

theorem slice_mask_crlf (mode : Mask) (t : Text) (s e : Nat) :
    slice (crlf (mask mode t)) (crlfOffset t s) (crlfOffset t e) =
      crlf (slice (mask mode t) s e) := by
  have h := slice_crlf (mask mode t) s e
  rwa [crlfOffset_mask, crlfOffset_mask] at h

end

/-! ### Keywords -/

section
variable {word : Text}

/-- The blanks in front of the first word of a line stand on that line. -/
theorem newline_not_mem_indent (t : Text) : newline ∉ t.take (indent t) := by
  rw [indent, ← List.prefix_iff_eq_take.mp (List.takeWhile_prefix _)]
  have hblank : ∀ b ∈ t.takeWhile fun b => b == space || b == tab,
      (b == space || b == tab) = true := List.all_eq_true.mp List.all_takeWhile
  intro hmem
  cases hblank newline hmem

theorem indent_crlf (t : Text) : indent (crlf t) = indent t := by
  induction t with
  | nil => rfl
  | cons b t ih =>
    by_cases hb : b = newline
    · subst hb
      rfl
    · rw [crlf_cons hb, indent, indent, List.takeWhile_cons, List.takeWhile_cons]
      split
      · exact congrArg (· + 1) ih
      · rfl

theorem crlfOffset_indent (t : Text) : crlfOffset t (indent t) = indent t :=
  crlfOffset_line (newline_not_mem_indent t)

theorem atLineStart_eq (c : Cursor) : atLineStart c = c.before.head?.all (· == newline) := by
  rw [atLineStart]
  cases c.before <;> rfl

theorem atLineStart_crlf (t : Text) (i : Nat) :
    atLineStart (Cursor.ofOffset (crlf t) (crlfOffset t i)) =
      atLineStart (Cursor.ofOffset t i) := by
  rw [atLineStart_eq, atLineStart_eq, Cursor.before_crlf, Cursor.before_ofOffset,
    List.head?_reverse, List.head?_reverse, getLast?_crlf]

/-- No line starts between the two bytes of a line end. -/
theorem atLineStart_inside {t : Text} {i : Nat} (h : t[i]? = some newline) :
    atLineStart (Cursor.ofOffset (crlf t) (crlfOffset t i + 1)) = false := by
  rw [Cursor.ofOffset_inside h]
  rfl

variable (hne : word ≠ []) (hword : ∀ w ∈ word, isLower w = true)
include hword

theorem wordAt?_crlf (t : Text) (i : Nat) :
    wordAt? word (Cursor.ofOffset (crlf t) (crlfOffset t i)) =
      (wordAt? word (Cursor.ofOffset t i)).map (crlfOffset (t.drop i)) := by
  rw [wordAt?, wordAt?, Cursor.before_crlf, Cursor.after_crlf, Cursor.before_ofOffset,
    Cursor.after_ofOffset, endsWord_crlf, (elastic_matchWord? hword).stretches]
  split <;> rfl

include hne

/-- **A keyword is found with either line ends.** -/
theorem findWordEnd?_crlf (t : Text) :
    findWordEnd? word (crlf t) = (findWordEnd? word t).map (crlfOffset t) := by
  refine Cursor.search?_crlf (fun i hi => ?_) fun i hi => ?_
  · rw [wordAt?_crlf hword, Cursor.offset_ofOffset hi, Cursor.offset_ofOffset (crlfOffset_le hi),
      Option.map_map, Option.map_map]
    congr 1
    funext n
    exact (crlfOffset_add t i n).symm
  · rw [Cursor.ofOffset_inside hi, wordAt?, matchWord?_newline hne hword, ite_self]
    rfl

omit hne in
/-- **So is a line that begins with it.** -/
theorem findLine?_crlf (t : Text) :
    findLine? word (crlf t) = (findLine? word t).map (crlfRange t) := by
  refine Cursor.search?_crlf (fun i hi => ?_) fun i hi => ?_
  · dsimp only
    rw [atLineStart_crlf, Cursor.after_crlf, Cursor.after_ofOffset, indent_crlf,
      Cursor.offset_ofOffset hi, Cursor.offset_ofOffset (crlfOffset_le hi)]
    split
    · conv_lhs => rw [← crlfOffset_indent, drop_crlf, (elastic_matchWord? hword).stretches]
      rw [Option.map_map, Option.map_map]
      congr 1
      funext n
      rw [Function.comp_apply, Function.comp_apply, crlfRange, crlfOffset_add, crlfOffset_add,
        crlfOffset_indent, List.drop_drop]
    · rfl
  · rw [atLineStart_inside hi]
    rfl

end

end PascalSurvey.Source
