/-
PascalSurvey/Proofs/Routine/Excerpt.lean

Methods read on their own.  A method reaches its reader through three cuts: the section is cut
out of the unit, the method out of the section, and the white space off the end of the method.
The first two fall outside comments and literals.  The third may fall inside one that is never
closed, but never between the two bytes that open a comment, because white space stands behind
it (`Span.Fits.source_eq_slice`).  So a method on its own has the comments, the literals and the
code of its place in the unit (`mask_source_eq_slice`).
-/
import PascalSurvey.Proofs.Outline.Section
import PascalSurvey.Proofs.Routine.Spans
import PascalSurvey.Proofs.Source.Slice

namespace PascalSurvey.Routine

open Ascii Source

variable {t : Text}

theorem Span.Fits.outside_stop {p : Nat} {s : Span} (h : s.Fits t p) : Outside t s.stop := by
  obtain ⟨q, hfind⟩ := h.found
  obtain ⟨-, hloc⟩ := Header.find?_located hfind
  rw [h.stop_eq]
  rcases Nat.le_total (bodyOf t s.header).stop s.header.stop with hle | hle
  · rw [Nat.max_eq_right hle]
    exact hloc.outside_stop
  · rw [Nat.max_eq_left hle]
    exact Body.outside_scan hloc.outside_stop

/-- The text of a method is a slice that begins outside comments and literals and ends without
splitting an opening pair. -/
theorem Span.Fits.source_eq_slice {p : Nat} {s : Span} (h : s.Fits t p) (n : Nat) :
    ∃ e ≤ t.length, s.header.start ≤ e ∧ Outside t s.header.start ∧ Unsplit t e ∧
      (s.method t n).source = Text.slice t s.header.start e := by
  obtain ⟨q, hfind⟩ := h.found
  obtain ⟨e, hle, hse, he, hsource⟩ := trimEnd_slice h.outside_stop (Nat.le_of_lt h.start_lt)
  exact ⟨e, Nat.le_trans hle h.stop_le, hse, Header.outside_start hfind, he, hsource⟩

/-- **Main.**  A method of a unit stands at an offset of the unit, and it lexes on its own as
it does there: the overlay without comments and the code bytes are the same.  So no comment and
no literal is opened or closed otherwise when the method is read alone. -/
theorem mask_source_eq_slice (t : Text) (file : Path) (m : Method)
    (hm : m ∈ Method.extract ((Outline.ofText t file).body t).1 ((Outline.ofText t file).body t).2) :
    ∃ p, m.source <+: t.drop p ∧
      mask .comments m.source = Text.slice (mask .comments t) p (p + m.source.length) ∧
      ∀ i < m.source.length, isCode m.source i = isCode t (p + i) := by
  obtain ⟨a, b, ha, hb, hab, hbody⟩ := Outline.body_eq_slice t file
  rw [hbody] at hm
  obtain ⟨spans, hspans⟩ := exists_yields (Text.slice t a b) 0
  rw [hspans.extract, List.mem_map] at hm
  obtain ⟨s, hs, rfl⟩ := hm
  obtain ⟨e, hle, hse, hout, hsplit, hsource⟩ :=
    (hspans.fits s hs).source_eq_slice (Text.lineOf t a)
  -- a slice of the section is a slice of the unit
  have hbound : a + e ≤ b := by
    rw [Text.slice, List.length_take] at hle
    omega
  have hlen : (Text.slice (Text.slice t a b) s.header.start e).length = e - s.header.start := by
    rw [Text.slice, List.length_take, List.length_drop]
    omega
  rw [hsource]
  refine ⟨a + s.header.start, ?_, ?_, ?_⟩
  · rw [Text.slice_slice t hbound]
    exact List.take_prefix _ _
  · rw [mask_comments_slice hout hsplit hse, mask_comments_slice ha hb.unsplit hab,
      Text.slice_slice _ hbound, hlen]
    congr 1
    omega
  · intro i hi
    rw [hlen] at hi
    rw [isCode_slice hout hsplit (by omega), isCode_slice ha hb.unsplit (by omega), Nat.add_assoc]

/-- A unit whose method ends inside a comment that is never closed. -/
def unclosedComment : Text :=
  "unit U;\nimplementation // (*\nprocedure T.A;\nbegin s := '\x7b'; (* end. \n "

theorem mask_unclosedComment :
    ∃ m ∈ Method.extract ((Outline.ofText unclosedComment []).body unclosedComment).1
        ((Outline.ofText unclosedComment []).body unclosedComment).2,
      m.source = ("procedure T.A;\nbegin s := '\x7b'; (* end." : Text) ∧
      ∃ p, m.source <+: unclosedComment.drop p ∧
        mask .comments m.source = Text.slice (mask .comments unclosedComment) p (p + m.source.length) ∧
        ∀ i < m.source.length, isCode m.source i = isCode unclosedComment (p + i) := by
  have hsource : (Method.extract ((Outline.ofText unclosedComment []).body unclosedComment).1
      ((Outline.ofText unclosedComment []).body unclosedComment).2).map (·.source) =
        [("procedure T.A;\nbegin s := '\x7b'; (* end." : Text)] := by
    decide +kernel
  obtain ⟨m, hm, heq⟩ := List.mem_map.mp (hsource ▸ List.mem_singleton_self _)
  exact ⟨m, hm, heq, mask_source_eq_slice unclosedComment [] m hm⟩

end PascalSurvey.Routine
