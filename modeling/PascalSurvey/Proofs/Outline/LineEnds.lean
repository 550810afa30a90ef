/-
PascalSurvey/Proofs/Outline/LineEnds.lean

The outline of a text with line ends of two bytes.  The heading, the sections and the `uses`
clauses are read with the length of gaps left open, so they are the same, each at its place in the
longer text.
-/
import PascalSurvey.Proofs.Outline.Uses
import PascalSurvey.Proofs.Source.Crlf

namespace PascalSurvey.Outline

open Ascii Source Text

/-! ### The heading -/

theorem isLower_of_mem_headingWords {w : Text} (hw : w ∈ headingWords) :
    w ≠ [] ∧ ∀ c ∈ w, isLower c = true := by
  have hall : headingWords.all fun w => !w.isEmpty && w.all isLower := rfl
  simpa [List.all_eq_true] using List.all_eq_true.mp hall w hw

theorem stretches_headingWords :
    Stretches fun t => headingWords.findSome? fun w => matchFold? w t :=
  Stretches.findSome? headingWords fun _ hw =>
    (elastic_matchFold? (isLower_of_mem_headingWords hw).2).stretches

theorem heading?_crlf (t : Text) : heading? (crlf t) = heading? t := by
  rw [heading?, heading?]
  have hwords := stretches_headingWords t
  dsimp only at hwords
  rw [hwords]
  rcases hk : headingWords.findSome? fun w => matchFold? w t with - | k
  · rfl
  obtain ⟨w, hw, hmatch⟩ := List.exists_of_findSome?_eq_some hk
  have hword : crlf (t.take k) = t.take k :=
    crlf_line (newline_not_mem_matchFold? (isLower_of_mem_headingWords hw).2 hmatch)
  have hname := (elastic_dottedName? elastic_identFold?).stretches
  simp only [Option.map_some, Option.bind_eq_bind, Option.bind_some, drop_crlf, blankRun_crlf,
    crlfOffset_eq_zero_iff, ← crlfOffset_add, hname _]
  split
  · rfl
  rcases dottedName? identFold? (t.drop (k + Text.blankRun (t.drop k))) with - | n
  · rfl
  simp only [Option.map_some, Option.bind_some, ← crlfOffset_add, drop_crlf, take_crlf,
    blankRun_crlf, hword, withoutBlanks_crlf, head?_crlf (c := semicolon) (by decide) (by decide)]

theorem heading?_newline (r : Text) : heading? (newline :: r) = none := by
  have hnone : (headingWords.findSome? fun w => matchFold? w (newline :: r)) = none := by
    rw [List.findSome?_eq_none_iff]
    intro w hw
    obtain ⟨hne, hword⟩ := isLower_of_mem_headingWords hw
    exact matchFold?_newline hne hword r
  rw [heading?, hnone]
  rfl

/-- **The heading says the same with either line ends.** -/
theorem findHeading?_crlf (t : Text) : findHeading? (crlf t) = findHeading? t := by
  suffices hsearch : findHeading? (crlf t) = (findHeading? t).map id by
    rwa [Option.map_id] at hsearch
  refine Cursor.search?_crlf (fun i _ => ?_) fun i hi => ?_
  · rw [Cursor.before_crlf, Cursor.after_crlf, Cursor.before_ofOffset, Cursor.after_ofOffset,
      endsWord_crlf, heading?_crlf, Option.map_id]
    rfl
  · rw [Cursor.ofOffset_inside hi, heading?_newline, ite_self]

/-! ### Sections -/

/-- The word `end` and a dot, with blanks between them. -/
def finalEnd? (t : Text) : Option Nat :=
  ((matchFold? "end" t).bind fun n => (some (Text.blankRun (t.drop n))).map (n + ·)).bind fun n =>
    (if (t.drop n).head? = some dot then some 1 else none).map (n + ·)

theorem isLower_of_mem_end : ∀ c ∈ ("end" : Text), isLower c = true := List.all_eq_true.mp rfl

theorem stretches_finalEnd? : Stretches finalEnd? :=
  ((elastic_matchFold? isLower_of_mem_end).stretches.andThen elastic_blankRun.stretches).andThen
    (elastic_byte (by decide) (by decide) (by decide)).stretches

theorem finalEnd?_newline (r : Text) : finalEnd? (newline :: r) = none := by
  rw [finalEnd?, matchFold?_newline (by decide) isLower_of_mem_end]
  rfl

theorem finalEnd?_pos {t : Text} {n : Nat} (h : finalEnd? t = some n) : 0 < n := by
  obtain ⟨m, -, h⟩ := Option.bind_eq_some_iff.mp h
  obtain ⟨k, hk, rfl⟩ := Option.map_eq_some_iff.mp h
  split at hk
  · cases hk
    exact Nat.succ_pos m
  · cases hk

theorem finalEnds_eq (code : Text) : finalEnds code = (Cursor.start code).searchAll fun c =>
    if endsWord c.before then none else (finalEnd? c.after).map fun n => (c.offset, n) := by
  rw [finalEnds]
  congr 1
  funext c
  split
  · rfl
  · rw [finalEnd?]
    cases matchFold? "end" c.after with
    | none => rfl
    | some n =>
      simp only [Option.bind_eq_bind, Option.bind_some, Option.map_some]
      split <;> rfl

theorem finalEnds_crlf (t : Text) : finalEnds (crlf t) = (finalEnds t).map (crlfOffset t) := by
  rw [finalEnds_eq, finalEnds_eq]
  refine Cursor.searchAll_crlf (fun i hi => ?_) (fun i _ a n h => ?_) fun i hi => ?_
  · rw [Cursor.before_crlf, Cursor.after_crlf, Cursor.before_ofOffset, Cursor.after_ofOffset,
      endsWord_crlf, stretches_finalEnd?, Cursor.offset_ofOffset hi,
      Cursor.offset_ofOffset (crlfOffset_le hi)]
    split
    · rfl
    · rw [Option.map_map, Option.map_map]
      rfl
  · split at h
    · cases h
    · obtain ⟨m, hm, heq⟩ := Option.map_eq_some_iff.mp h
      obtain ⟨-, rfl⟩ := Prod.mk.inj heq
      exact finalEnd?_pos hm
  · rw [Cursor.ofOffset_inside hi, finalEnd?_newline, Option.map_none, ite_self]

/-- **The sections are the same with either line ends.** -/
theorem sections_crlf (t : Text) : sections (crlf t) =
    ((sections t).1.map (crlfRange t), (sections t).2.map (crlfRange t)) := by
  have himplementation := @findLine?_crlf "implementation" (List.all_eq_true.mp rfl) t
  have hinterface := @findLine?_crlf "interface" (List.all_eq_true.mp rfl) t
  rw [sections, sections, himplementation, hinterface]
  -- the interface only counts if it begins in front of the implementation
  rcases findLine? "implementation" t with - | ⟨s, e⟩
  · rcases findLine? "interface" t with - | ⟨i, j⟩
    · rfl
    · simp [Option.filter_some, crlfRange, crlfOffset_length]
  · refine Prod.ext ?_ ?_
    · rcases findLine? "interface" t with - | ⟨i, j⟩
      · rfl
      · by_cases h : i < s <;> simp [Option.filter_some, crlfOffset_lt_iff, crlfRange, h]
    · -- the last `end` and its dot stand where they stood behind the start
      have hends := finalEnds_crlf (t.drop e)
      rw [← drop_crlf] at hends
      simp only [Option.map_some, hends, List.getLast?_map, Option.map_map, crlfRange]
      rcases (finalEnds (t.drop e)).getLast? with - | n
      · simp [crlfOffset_length]
      · simp [crlfOffset_add]

/-! ### Uses clauses -/

/-- In front of a line end the quotes are closed. -/
theorem quotesClosed_of_line {u v : Text} (h : QuotesClosed (u ++ newline :: v)) :
    QuotesClosed u := by
  generalize ht : u ++ newline :: v = t at h
  induction h generalizing u with
  | nil => exact absurd ht (by simp)
  | @plain b r hb hr ih =>
    cases u with
    | nil => exact .nil
    | cons a u =>
      obtain ⟨rfl, hu⟩ := List.cons.inj ht
      exact .plain hb (ih hu)
  | @pair x r hx hr ih =>
    cases u with
    | nil => exact absurd (List.cons.inj ht).1 (by decide)
    | cons a u =>
      obtain ⟨rfl, hu⟩ := List.cons.inj ht
      -- the line end stands behind the closing quote
      rcases List.append_eq_append_iff.mp hu with ⟨y, rfl, hy⟩ | ⟨y, rfl, hy⟩
      · cases y with
        | nil => exact absurd (List.cons.inj hy).1 (by decide)
        | cons c y =>
          obtain ⟨rfl, -⟩ := List.cons.inj hy
          exact absurd rfl (hx newline (by simp)).2
      · cases y with
        | nil => exact absurd (List.cons.inj hy).1 (by decide)
        | cons c y =>
          obtain ⟨rfl, hrest⟩ := List.cons.inj hy
          exact .pair hx (ih hrest.symm)

namespace UsesEntry

/-- **The entries of a clause are the same with either line ends**, if the quotes in it are
closed. -/
theorem parseClause_crlf {y z : Text} (h : QuotesClosed (y ++ z)) :
    parseClause (crlf y) = parseClause y := by
  -- line by line, with the lines in front as they were
  suffices hfront : ∀ x, QuotesClosed (x ++ y ++ z) →
      parseClause (x ++ crlf y) = parseClause (x ++ y) from hfront [] h
  clear h
  induction y using linewise with
  | last u hu =>
    intro x _
    rw [crlf_line hu]
  | line u v hu ih =>
    intro x h
    have hline : QuotesClosed (x ++ u) := by
      refine quotesClosed_of_line (v := v ++ z) ?_
      simpa only [List.append_assoc, List.cons_append] using h
    have hseam : ClauseSeam (x ++ u) (newline :: crlf v) := by
      refine .inr fun c hc => .inl ?_
      obtain rfl := Option.some.inj hc
      rfl
    -- the carriage return is a gap that the line feed goes on with
    have hcr := parseClause_gap isGap_cr hline hseam
    have hrest := ih (x ++ u ++ [newline])
    simp only [crlf_append, crlf_line hu, crlf_newline, List.append_assoc, List.nil_append,
      List.cons_append] at hcr hrest h ⊢
    rw [hcr, hrest h]

end UsesEntry

/-- Behind a place of code the quotes are closed, if all literals are. -/
theorem quotesClosed_clean {t : Text} {n : Nat} (hclosed : ∀ p ∈ pieces t, p.isClosed = true)
    (hout : Outside t n) : QuotesClosed ((clean t).drop n) := by
  have htext : textOf (pieces t ++ []) = t := by rw [List.append_nil, textOf, flatMap_text_pieces]
  have hpieces : pieces (textOf (pieces t ++ [])) = pieces t ++ [] := by rw [htext, List.append_nil]
  exact UsesEntry.quotesClosed_drop hpieces hclosed (by rwa [htext])

/-- **The entries are the same with either line ends**, if all literals are closed. -/
theorem UsesEntry.within_crlf {t : Text} (hclosed : ∀ p ∈ pieces t, p.isClosed = true) (s e : Nat) :
    within (crlf (overlay t)) (crlf (clean t)) (crlfOffset t s) (crlfOffset t e) =
      within (overlay t) (clean t) s e := by
  have hplace {s n e : Nat} (hn : n ≤ (slice (overlay t) s e).length) :
      crlfOffset t s + crlfOffset (slice (overlay t) s e) n = crlfOffset t (s + n) := by
    have h := crlfOffset_slice hn
    rwa [crlfOffset_mask, crlfOffset_mask] at h
  rw [within, within, slice_mask_crlf, findWordEnd?_crlf (by decide) isLower_of_mem_uses]
  rcases hn : findWordEnd? "uses" (slice (overlay t) s e) with - | n
  · rfl
  -- the clause begins at a place of code, from which on all quotes are closed
  have hout := outside_of_findWordEnd?_slice (by decide) isLower_of_mem_uses hn
  simp only [Option.map_some, hplace (findWordEnd?_le hn), slice_mask_crlf]
  rw [find?_crlf (by decide) (by decide)]
  rcases hm : find? semicolon (slice (overlay t) (s + n) e) with - | m
  · rfl
  have hle : m ≤ (slice (overlay t) (s + n) e).length :=
    Nat.le_of_lt (lt_length_of_getElem? (getElem?_of_find? hm))
  simp only [Option.map_some, hplace hle, slice_mask_crlf]
  rw [slice, Nat.add_sub_cancel_left]
  refine parseClause_crlf (z := ((clean t).drop (s + n)).drop m) ?_
  rw [List.take_append_drop]
  exact quotesClosed_clean hclosed hout

end PascalSurvey.Outline
