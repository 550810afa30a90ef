/-
PascalSurvey/Proofs/Source/Name.lean

How dotted names are read.  The further segments of a name are read one behind the other
(`moreSegments_eq`), whatever a segment is.  Three things follow by induction on what is left of the
text: a name ends before the next semicolon (`local_dottedName?`), a name that takes the whole
text ends with a segment, which stands behind the last dot and white space
(`exists_lastSegment`), and it does not matter to a name how long the gaps in it are
(`elastic_dottedName?`).
-/
import PascalSurvey.Proofs.Text.Elastic
import PascalSurvey.Proofs.Text.Local
import PascalSurvey.Source.Name

namespace PascalSurvey.Source

open Ascii

/-- The further segments of a name, read one behind the other. -/
theorem moreSegments_eq (f : Text → Option Nat) (t : Text) :
    moreSegments f t =
      if (t.drop (Text.blankRun t)).head? = some dot then
        match f ((t.drop (Text.blankRun t + 1)).drop
            (Text.blankRun (t.drop (Text.blankRun t + 1)))) with
        | some n => Text.blankRun t + 1 + Text.blankRun (t.drop (Text.blankRun t + 1)) + n +
            moreSegments f (t.drop (Text.blankRun t + 1 + Text.blankRun (t.drop (Text.blankRun t + 1)) + n))
        | none => 0
      else 0 := by
  rw [moreSegments]
  split
  · next r heq =>
    replace heq : t.drop (Text.blankRun t) = dot :: r := heq
    have hr : t.drop (Text.blankRun t + 1) = r := by rw [← List.drop_drop, heq]; rfl
    cases hf : f (r.drop (Text.blankRun r)) <;> simp only [heq, List.head?_cons, if_true, hr, hf]
  · next hne =>
    rw [if_neg fun hhead => ?_]
    obtain ⟨r', hr'⟩ := List.head?_eq_some_iff.mp hhead
    exact hne r' hr'

theorem local_moreSegments {f : Text → Option Nat} (hf : Local f) :
    Local fun t => some (moreSegments f t) := by
  suffices h : ∀ x y, moreSegments f (x ++ semicolon :: y) = moreSegments f (x ++ [semicolon]) ∧
      moreSegments f (x ++ [semicolon]) ≤ x.length from
    ⟨fun x y => by rw [(h x y).1], fun {x n} hn => by rw [← Option.some.inj hn]; exact (h x []).2⟩
  intro x y
  induction hlen : x.length using Nat.strongRecOn generalizing x with
  | ind n ih =>
    subst hlen
    have hlead := Text.local_blankRun.le (x := x) rfl
    rw [moreSegments_eq f (x ++ semicolon :: y), moreSegments_eq f (x ++ [semicolon]),
      Option.some.inj (Text.local_blankRun.same x y)]
    generalize Text.blankRun (x ++ [semicolon]) = lead at hlead ⊢
    rw [drop_before hlead, drop_before hlead]
    rcases hx : x.drop lead with - | ⟨c, r⟩
    · have hne : some semicolon ≠ some dot := by decide
      rw [List.nil_append, List.nil_append, List.head?_cons, List.head?_cons, if_neg hne, if_neg hne]
      exact ⟨rfl, Nat.zero_le _⟩
    · -- the first byte behind the blanks stands before the semicolon
      have hlt : lead + 1 ≤ x.length := by
        have := congrArg List.length hx
        rw [List.length_drop, List.length_cons] at this
        omega
      have hgap := Text.local_blankRun.le (x := x.drop (lead + 1)) rfl
      rw [List.cons_append, List.cons_append, List.head?_cons, List.head?_cons, drop_before hlt,
        drop_before hlt, Option.some.inj (Text.local_blankRun.same (x.drop (lead + 1)) y)]
      generalize Text.blankRun (x.drop (lead + 1) ++ [semicolon]) = gap at hgap ⊢
      rw [drop_before hgap, drop_before hgap, hf.same]
      split
      · rcases hn : f ((x.drop (lead + 1)).drop gap ++ [semicolon]) with - | n
        · exact ⟨rfl, Nat.zero_le _⟩
        · have hn' := hf.le hn
          simp only [List.length_drop] at hn' hgap
          have hle : lead + 1 + gap + n ≤ x.length := by omega
          obtain ⟨hsame, hrest⟩ := ih _ (by rw [List.length_drop]; omega)
            (x.drop (lead + 1 + gap + n)) rfl
          rw [List.length_drop] at hrest
          simp only [drop_before hle, hsame]
          exact ⟨trivial, by omega⟩
      · exact ⟨rfl, Nat.zero_le _⟩

theorem local_dottedName? {f : Text → Option Nat} (hf : Local f) : Local (dottedName? f) :=
  (hf.andThen (local_moreSegments hf)).congr fun t => by
    unfold dottedName?
    cases f t <;> rfl

/-! ### The last segment -/

/-- Further segments that take the whole text end with a segment. -/
theorem exists_lastSegment_of_more {f : Text → Option Nat} {t : Text} (hne : t ≠ [])
    (h : moreSegments f t = t.length) :
    ∃ x gap seg, t = x ++ dot :: (gap ++ seg) ∧ Utf8.Chars isBlankChar gap ∧
      f seg = some seg.length := by
  induction hlen : t.length using Nat.strongRecOn generalizing t with
  | ind m ih =>
    subst hlen
    have hpos : 0 < t.length := List.length_pos_iff.mpr hne
    rw [moreSegments_eq] at h
    split at h
    · next hdot =>
      generalize Text.blankRun t = lead at h hdot
      split at h
      · next n hn =>
        have hgap := Utf8.chars_take_run isBlankChar (t.drop (lead + 1))
        generalize hlen : Utf8.run isBlankChar (t.drop (lead + 1)) = gap at hgap
        rw [show Text.blankRun (t.drop (lead + 1)) = gap from hlen, List.drop_drop] at hn
        rw [show Text.blankRun (t.drop (lead + 1)) = gap from hlen] at h
        replace h : lead + 1 + gap + n + moreSegments f (t.drop (lead + 1 + gap + n)) =
          t.length := h
        by_cases hrest : t.drop (lead + 1 + gap + n) = []
        · -- this segment is the last one
          rw [hrest, moreSegments_eq, List.drop_nil, List.head?_nil,
            if_neg (Option.some_ne_none dot).symm] at h
          refine ⟨t.take lead, (t.drop (lead + 1)).take gap, t.drop (lead + 1 + gap), ?_, hgap, ?_⟩
          · obtain ⟨r, hr⟩ := List.head?_eq_some_iff.mp hdot
            have hr' : t.drop (lead + 1) = r := by rw [← List.drop_drop, hr]; rfl
            have hrest' : t.drop (lead + 1 + gap) = r.drop gap := by rw [← List.drop_drop, hr']
            rw [hrest', hr', List.take_append_drop, ← hr, List.take_append_drop]
          · rw [hn, List.length_drop]
            congr 1
            omega
        · have hlt : lead + 1 + gap + n < t.length := by
            rw [List.drop_eq_nil_iff] at hrest
            omega
          obtain ⟨x, gap', seg, htext, hgap', hseg⟩ :=
            ih _ (by rw [List.length_drop]; omega) hrest (by rw [List.length_drop]; omega) rfl
          refine ⟨t.take (lead + 1 + gap + n) ++ x, gap', seg, ?_, hgap', hseg⟩
          rw [List.append_assoc, ← htext, List.take_append_drop]
      · omega
    · omega

/-- **A name of several segments ends with one of them.** -/
theorem exists_lastSegment {f : Text → Option Nat} {t : Text}
    (h : dottedName? f t = some t.length) (hf : f t ≠ some t.length) :
    ∃ x gap seg, t = x ++ dot :: (gap ++ seg) ∧ Utf8.Chars isBlankChar gap ∧
      f seg = some seg.length := by
  obtain ⟨n, hn, hsum⟩ := Option.map_eq_some_iff.mp h
  have hne : n ≠ t.length := by
    rintro rfl
    exact hf hn
  have hdrop : t.drop n ≠ [] := by
    rw [Ne, List.drop_eq_nil_iff]
    omega
  obtain ⟨x, gap, seg, htext, hgap, hseg⟩ :=
    exists_lastSegment_of_more (f := f) hdrop (by rw [List.length_drop]; omega)
  refine ⟨t.take n ++ x, gap, seg, ?_, hgap, hseg⟩
  rw [List.append_assoc, ← htext, List.take_append_drop]

/-! ### Gaps in names -/

/-- The length of one further segment: blanks, a dot, blanks and a segment. -/
def nextSegment? (f : Text → Option Nat) (t : Text) : Option Nat :=
  let lead := Text.blankRun t
  if (t.drop lead).head? = some dot then
    let gap := Text.blankRun (t.drop (lead + 1))
    (f (t.drop (lead + 1 + gap))).map (lead + 1 + gap + ·)
  else none

theorem moreSegments_next (f : Text → Option Nat) (t : Text) :
    moreSegments f t = match nextSegment? f t with
      | some n => n + moreSegments f (t.drop n)
      | none => 0 := by
  rw [moreSegments_eq, nextSegment?]
  simp only [List.drop_drop]
  split
  · cases f (t.drop (Text.blankRun t + 1 + Text.blankRun (t.drop (Text.blankRun t + 1)))) <;> rfl
  · rfl

/-- Behind a dot the name goes on as one that begins there. -/
theorem moreSegments_dot {f : Text → Option Nat} {d e t : Text} {n : Nat} (hd : Blanks d)
    (he : Blanks e) (ht : Text.blankRun t = 0) (h : dottedName? f t = some n) :
    moreSegments f (d ++ dot :: (e ++ t)) = d.length + 1 + e.length + n := by
  have hlead : Text.blankRun (d ++ dot :: (e ++ t)) = d.length := by
    rw [Text.blankRun, Utf8.run_append hd, Utf8.run_eq_zero (by decide) (by decide), Nat.add_zero]
  have hgap : Text.blankRun (e ++ t) = e.length := by
    rw [Text.blankRun, Utf8.run_append he, ← Text.blankRun, ht, Nat.add_zero]
  obtain ⟨k, hk, rfl⟩ := Option.map_eq_some_iff.mp h
  have hnext : nextSegment? f (d ++ dot :: (e ++ t)) = some (d.length + 1 + e.length + k) := by
    rw [nextSegment?]
    simp only [hlead, List.drop_left, List.head?_cons, if_true, List.drop_length_add_append,
      List.drop_succ_cons, List.drop_zero, hgap, Nat.add_assoc, Nat.add_comm 1, hk, Option.map_some]
  have hrest : (d ++ dot :: (e ++ t)).drop (d.length + 1 + e.length + k) = t.drop k := by
    rw [Nat.add_assoc, Nat.add_assoc, List.drop_length_add_append, Nat.add_comm 1,
      List.drop_succ_cons, List.drop_length_add_append]
  rw [moreSegments_next, hnext]
  dsimp only
  rw [hrest, Nat.add_assoc _ k]

theorem nextSegment?_pos {f : Text → Option Nat} {t : Text} {n : Nat}
    (h : nextSegment? f t = some n) : 0 < n := by
  rw [nextSegment?] at h
  dsimp only at h
  split at h
  · obtain ⟨m, -, rfl⟩ := Option.map_eq_some_iff.mp h
    omega
  · cases h

section
variable {f : Text → Option Nat} (hf : Elastic f)
include hf

theorem elastic_nextSegment? : Elastic (nextSegment? f) := by
  have hdot : Elastic fun t => if t.head? = some dot then some 1 else none :=
    Text.elastic_byte (by decide) (by decide) (by decide)
  refine (((Text.elastic_blankRun.andThen hdot).andThen Text.elastic_blankRun).andThen hf).congr
    fun t => ?_
  rw [nextSegment?]
  dsimp only
  split
  · next h => simp only [Option.bind_some, if_pos h, Option.map_some]
  · next h => simp only [Option.bind_some, if_neg h, Option.map_none, Option.bind_none]

theorem uncut_of_moreSegments {t : Text} (h : 0 < moreSegments f t) : Uncut t := by
  rw [moreSegments_next] at h
  rcases hm : nextSegment? f t with - | m
  · rw [hm] at h
    cases h
  · exact (elastic_nextSegment? hf).uncut hm (nextSegment?_pos hm)

/-- **The further segments of a name are read whatever the gaps between them.** -/
theorem elastic_moreSegments : Elastic fun t => some (moreSegments f t) where
  place {u e e' v} he he' := by
    induction hlen : u.length using Nat.strongRecOn generalizing u with
    | ind l ih =>
      subst hlen
      have hnext := (elastic_nextSegment? hf).place (u := u) (v := v) he he'
      rw [moreSegments_next f (u ++ e ++ v), moreSegments_next f (u ++ e' ++ v)]
      generalize ha : nextSegment? f (u ++ e ++ v) = a, nextSegment? f (u ++ e' ++ v) = b at hnext
      cases hnext with
      | none => exact .some (.front (Nat.zero_le _))
      | @some n n' hsame =>
        have hpos := nextSegment?_pos ha
        dsimp only
        cases hsame with
        | front h =>
          rw [drop_front h, drop_front h]
          have hrest := ih (u.drop n).length (by rw [List.length_drop]; omega) rfl
          cases hrest with
          | some hrest => exact .some (hrest.add h)
        | @behind k h =>
          rw [drop_behind, drop_behind]
          exact .some (.behind_add h (uncut_of_moreSegments hf))
  uncut {t n} hn hpos := by
    cases hn
    exact uncut_of_moreSegments hf hpos
  noQuote {t n} hn := by
    cases hn
    induction hlen : t.length using Nat.strongRecOn generalizing t with
    | ind l ih =>
      subst hlen
      rw [moreSegments_next]
      rcases hm : nextSegment? f t with - | m
      · simp
      · have hpos := nextSegment?_pos hm
        dsimp only
        rw [List.take_add, List.mem_append, not_or]
        refine ⟨(elastic_nextSegment? hf).noQuote hm, ?_⟩
        rcases Nat.eq_zero_or_pos t.length with hzero | hlt
        · rw [List.eq_nil_of_length_eq_zero hzero]
          simp
        · exact ih (t.drop m).length (by rw [List.length_drop]; omega) rfl

theorem elastic_dottedName? : Elastic (dottedName? f) :=
  (hf.andThen (elastic_moreSegments hf)).congr fun t => by
    unfold dottedName?
    cases f t <;> rfl

end
end PascalSurvey.Source
