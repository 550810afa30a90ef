/-
PascalSurvey/Proofs/Routine/Spans.lean

What an extraction cuts out of a text.  The extraction goes through the headers of a text:
a header that is only a declaration is passed over with its directives, one whose body is
never reached is passed over alone, and any other gives a method that reaches to the end of
its body.  `Yields t p spans` is that loop from the offset `p` on, one constructor for each
kind of round, and nothing in it stops the loop early.

Main result: the loop always ends, and the methods of a text are slices of it that come in
order, do not overlap and split no character (`extract_located`).
-/
import PascalSurvey.Bound
import PascalSurvey.Routine.Method
import PascalSurvey.Proofs.Routine.Cuts

namespace PascalSurvey.Routine

open Ascii Source

/-! ### The rounds of an extraction -/

/-- A method before it is cut out: its header and where it ends. -/
structure Span where
  header : Header
  stop : Nat
  /-- Whether a balanced `end` closes the body. -/
  terminated : Bool
  deriving Repr, DecidableEq

/-- The method of a span. -/
def Span.method (t : Text) (firstLine : Nat) (s : Span) : Method :=
  Method.ofHeader t (overlay t) s.header s.stop s.terminated firstLine

/-- The body behind a header. -/
abbrev bodyOf (t : Text) (h : Header) : BodyScan := Body.scan t (overlay t) h.stop t.length

/-- The rounds from the offset `p` on find `spans`. -/
inductive Yields (t : Text) : (p : Nat) → List Span → Prop
  | done {p : Nat} : Header.find? (overlay t) p = none → Yields t p []
  | declaration {p : Nat} {h : Header} {spans : List Span} : Header.find? (overlay t) p = some h →
      h.declarationOnly = true → Yields t (max h.directivesEnd h.stop) spans → Yields t p spans
  | bodiless {p : Nat} {h : Header} {spans : List Span} : Header.find? (overlay t) p = some h →
      h.declarationOnly = false → (bodyOf t h).bodyStarted = false → Yields t h.stop spans →
      Yields t p spans
  | method {p : Nat} {h : Header} {spans : List Span} : Header.find? (overlay t) p = some h →
      h.declarationOnly = false → (bodyOf t h).bodyStarted = true →
      Yields t (max (bodyOf t h).stop h.stop) spans →
      Yields t p (⟨h, max (bodyOf t h).stop h.stop, (bodyOf t h).terminated⟩ :: spans)

variable {t : Text}

/-- Every round goes on behind the header that it finds. -/
theorem lt_stop_of_find? {p : Nat} {h : Header} (hh : Header.find? (overlay t) p = some h) :
    p < h.stop ∧ h.stop ≤ h.directivesEnd ∧ h.directivesEnd ≤ t.length := by
  obtain ⟨hp, hloc⟩ := Header.find?_located hh
  have := hloc.start_le
  have := hloc.keyword_lt
  have hle := hloc.end_le
  rw [length_mask] at hle
  exact ⟨by omega, hloc.stop_le, hle⟩

/-- **The loop ends.** -/
theorem exists_yields (t : Text) (p : Nat) : ∃ spans, Yields t p spans := by
  induction hlen : t.length - p using Nat.strongRecOn generalizing p with
  | ind n ih =>
    subst hlen
    rcases hfind : Header.find? (overlay t) p with - | h
    · exact ⟨[], .done hfind⟩
    · obtain ⟨hp, hle, hend⟩ := lt_stop_of_find? hfind
      cases hdecl : h.declarationOnly with
      | true =>
        obtain ⟨spans, hspans⟩ := ih _ (by omega) (max h.directivesEnd h.stop) rfl
        exact ⟨spans, .declaration hfind hdecl hspans⟩
      | false =>
        cases hbody : (bodyOf t h).bodyStarted with
        | false =>
          obtain ⟨spans, hspans⟩ := ih _ (by omega) h.stop rfl
          exact ⟨spans, .bodiless hfind hdecl hbody hspans⟩
        | true =>
          obtain ⟨spans, hspans⟩ := ih _ (by omega) (max (bodyOf t h).stop h.stop) rfl
          exact ⟨_, .method hfind hdecl hbody hspans⟩

/-- The next method is that of the first span. -/
theorem Yields.next? {p : Nat} {spans : List Span} (h : Yields t p spans) (n : Nat) :
    match spans with
    | [] => Method.next? t (overlay t) n p = none
    | s :: rest => Method.next? t (overlay t) n p = some (s.stop, s.method t n) ∧
        p < s.stop ∧ p < t.length ∧ Yields t s.stop rest := by
  induction h with
  | done hfind => rw [Method.next?, hfind]
  | @declaration p h spans hfind hdecl hrest ih =>
    -- the search goes on behind the header, which lies behind `p`
    obtain ⟨hp, hle, hend⟩ := lt_stop_of_find? hfind
    have hnext : Method.next? t (overlay t) n p =
        Method.next? t (overlay t) n (max h.directivesEnd h.stop) := by
      rw [Method.next?, hfind]
      simp only [hdecl, if_true, length_mask]
      rw [if_pos ⟨by omega, by omega⟩]
    rw [hnext]
    cases spans with
    | nil => exact ih
    | cons s rest => exact ⟨ih.1, by omega, by omega, ih.2.2.2⟩
  | @bodiless p h spans hfind hdecl hbody hrest ih =>
    obtain ⟨hp, hle, hend⟩ := lt_stop_of_find? hfind
    have hnext : Method.next? t (overlay t) n p = Method.next? t (overlay t) n h.stop := by
      rw [Method.next?, hfind]
      simp only [hdecl, Bool.false_eq_true, if_false, hbody, length_mask]
      rw [if_pos ⟨by omega, by omega⟩]
    rw [hnext]
    cases spans with
    | nil => exact ih
    | cons s rest => exact ⟨ih.1, by omega, by omega, ih.2.2.2⟩
  | @method p h spans hfind hdecl hbody hrest ih =>
    obtain ⟨hp, hle, hend⟩ := lt_stop_of_find? hfind
    refine ⟨?_, by dsimp only; omega, by omega, hrest⟩
    rw [Method.next?, hfind]
    simp only [hdecl, Bool.false_eq_true, if_false, hbody, if_true]
    rfl

/-- **The methods of a text are those of its spans.** -/
theorem Yields.allFrom {p : Nat} {spans : List Span} (h : Yields t p spans) (n : Nat) :
    Method.allFrom t (overlay t) n p = spans.map fun s => (s.stop, s.method t n) := by
  induction spans generalizing p with
  | nil =>
    have hnext := h.next? n
    rw [Method.allFrom, hnext]
    rfl
  | cons s rest ih =>
    obtain ⟨hnext, hlt, hp, hrest⟩ := h.next? n
    rw [Method.allFrom, hnext]
    simp only [List.map_cons, length_mask]
    rw [if_pos ⟨hlt, hp⟩, ih hrest]

theorem Yields.extract {spans : List Span} (h : Yields t 0 spans) (n : Nat) :
    Method.extract t n = spans.map (Span.method t n) := by
  rw [Method.extract, h.allFrom n, List.map_map]
  rfl

/-! ### The order of spans -/

/-- A span lies in the text, from the start of its header on. -/
structure Span.Fits (t : Text) (p : Nat) (s : Span) : Prop where
  le_start : p ≤ s.header.start
  start_lt : s.header.start < s.stop
  stop_le : s.stop ≤ t.length
  found : ∃ q, Header.find? (overlay t) q = some s.header
  stop_eq : s.stop = max (bodyOf t s.header).stop s.header.stop

theorem Yields.fits {p : Nat} {spans : List Span} (h : Yields t p spans) :
    ∀ s ∈ spans, s.Fits t p := by
  induction h with
  | done => simp
  | @declaration p h spans hfind hdecl hrest ih | @bodiless p h spans hfind hdecl hbody hrest ih =>
    obtain ⟨hp, -, -⟩ := lt_stop_of_find? hfind
    intro s hs
    have := ih s hs
    exact { this with le_start := by have := this.le_start; omega }
  | @method p h spans hfind hdecl hbody hrest ih =>
    obtain ⟨hp, hle, hend⟩ := lt_stop_of_find? hfind
    obtain ⟨-, hloc⟩ := Header.find?_located hfind
    have hstart := (Header.find?_startsAt hfind).1
    have hkey := hloc.start_le
    have hlt := hloc.keyword_lt
    have hstop : (bodyOf t h).stop ≤ t.length := Body.scan_stop_le hloc.outside_stop
    intro s hs
    rcases List.mem_cons.mp hs with rfl | hs
    · exact ⟨hstart, by dsimp only; omega, by dsimp only; omega, ⟨p, hfind⟩, rfl⟩
    · have := ih s hs
      exact { this with le_start := by have := this.le_start; omega }

theorem Yields.ordered {p : Nat} {spans : List Span} (h : Yields t p spans) :
    spans.Pairwise fun a b => a.stop ≤ b.header.start := by
  induction h with
  | done => exact .nil
  | declaration _ _ _ ih | bodiless _ _ _ _ ih => exact ih
  | method _ _ _ hrest ih => exact .cons (fun s hs => (hrest.fits s hs).le_start) ih

/-! ### What is cut out -/

/-- The method of a span is a slice of the text, cut between characters, with the lines on
which it stands; no line number passes 32 bits. -/
structure Span.Placed (t : Text) (firstLine : Nat) (s : Span) : Prop where
  start_lt : s.header.start < s.stop
  stop_le : s.stop ≤ t.length
  header_at : Header.StartsAt (overlay t) s.header.start s.header
  start_cut : Cut t s.header.start
  stop_cut : Cut t s.stop
  source : (s.method t firstLine).source = Text.trimEnd (Text.slice t s.header.start s.stop)
  startLine : (s.method t firstLine).startLine = firstLine + Text.breaks (t.take s.header.start)
  endLine : (s.method t firstLine).endLine =
    (s.method t firstLine).startLine + Text.breaks (s.method t firstLine).source
  lines_pos : 1 ≤ (s.method t firstLine).startLine
  lineOf_lt : firstLine + Text.lineOf t s.header.start < Bound.word32
  endLine_lt : (s.method t firstLine).endLine < Bound.word32

/-- A method ends on a line of its slice. -/
theorem Span.endLine_le {s : Span} (h : s.header.start ≤ s.stop) (n : Nat) :
    (s.method t n).endLine ≤ n + Text.breaks (t.take s.stop) := by
  have hslice := Text.breaks_slice t h
  have htrim := Text.breaks_trimEnd_le (Text.slice t s.header.start s.stop)
  simp only [Span.method, Method.ofHeader]
  omega

theorem Span.Fits.placed {p n : Nat} {s : Span} (h : s.Fits t p) (hvalid : Utf8.isValid t = true)
    (hn : 1 ≤ n) (hlines : n + Text.breaks t < Bound.word32 - 1) : s.Placed t n := by
  have hstart := Text.breaks_take_le t s.header.start
  have hstop := Text.breaks_take_le t s.stop
  have hend := Span.endLine_le (t := t) (Nat.le_of_lt h.start_lt) n
  obtain ⟨q, hfind⟩ := h.found
  obtain ⟨-, hloc⟩ := Header.find?_located hfind
  have hsliced := Header.sliced_of_find? hvalid hfind
  refine
    { start_lt := h.start_lt
      stop_le := h.stop_le
      header_at := (Header.find?_startsAt hfind).2.2
      start_cut := hsliced.start
      stop_cut := ?_
      source := rfl
      startLine := rfl
      endLine := rfl
      lines_pos := ?_
      lineOf_lt := ?_
      endLine_lt := by omega }
  · rw [h.stop_eq]
    rcases Nat.le_total (bodyOf t s.header).stop s.header.stop with hle | hle
    · rw [Nat.max_eq_right hle]
      exact hsliced.stop
    · rw [Nat.max_eq_left hle]
      exact Body.cut_scan hvalid hloc.outside_stop
  · show 1 ≤ n + Text.breaks (t.take s.header.start)
    omega
  · rw [Text.lineOf]
    omega

/-- **Main.**  For a text of whole characters whose lines can be counted in 32 bits, the loop
ends, its spans come in order and do not overlap, and each gives the method that is cut out
there.  No comment or literal reaches beyond the text, and neither the headers that are read
nor the words and bodies that are walked over are cut inside a character. -/
theorem extract_located (t : Text) (n : Nat) (hvalid : Utf8.isValid t = true) (hn : 1 ≤ n)
    (hlines : n + Text.breaks t < Bound.word32 - 1) :
    (∃ spans, Yields t 0 spans ∧ Method.extract t n = spans.map (Span.method t n) ∧
      (spans.Pairwise fun a b => a.stop ≤ b.header.start) ∧ ∀ s ∈ spans, s.Placed t n) ∧
    ((Method.extract t n).Pairwise fun a b => a.endLine ≤ b.startLine) ∧
    (∀ i kind k, regionAt? (t.drop i) = some (kind, k) → 1 ≤ k ∧ i + k ≤ t.length) ∧
    (∀ p h, Header.find? (overlay t) p = some h ∨ Header.parseAt? (overlay t) p = some h →
      h.Sliced t) ∧
    (∀ q, ((overlay t)[q]?).any isIdentStart = true → Cut t q ∧ Cut t (Body.wordEnd (overlay t) q)) ∧
    ∀ start, Outside t start → Cut t (Body.scan t (overlay t) start t.length).stop := by
  obtain ⟨spans, hspans⟩ := exists_yields t 0
  refine ⟨⟨spans, hspans, hspans.extract n, hspans.ordered, fun s hs =>
    (hspans.fits s hs).placed hvalid hn hlines⟩, ?_, ?_, ?_, ?_, ?_⟩
  · -- a method ends on a line of its slice, which ends before the next one starts
    rw [hspans.extract n, List.pairwise_map]
    apply hspans.ordered.imp_of_mem
    intro a b ha _ hab
    have hend := Span.endLine_le (t := t) (Nat.le_of_lt (hspans.fits a ha).start_lt) n
    have hmono := Text.breaks_take_mono t hab
    show (a.method t n).endLine ≤ n + Text.breaks (t.take b.header.start)
    omega
  · intro i kind k hr
    obtain ⟨hpos, hle⟩ := regionAt?_bounds hr
    rw [List.length_drop] at hle
    exact ⟨hpos, by omega⟩
  · rintro p h (hfind | hparse)
    · exact Header.sliced_of_find? hvalid hfind
    · exact Header.sliced_of_parseAt? hvalid hparse
  · intro q hq
    obtain ⟨b, hb, hident⟩ := (Option.any_eq_true _ _).mp hq
    exact cut_word hvalid hb (isIdentStart_isIdentByte hident)
  · intro start hout
    exact Body.cut_scan hvalid hout

/-- Two methods, the first with characters beyond ASCII and an unclosed block. -/
def twoMethods : Text :=
  "procedure T.A;\nbegin s := 'é'; begin end;\nclass function T.B: Integer;\nbegin end; // é"

theorem extract_twoMethods :
    (Method.extract twoMethods 7).length = 2 ∧ Utf8.isValid twoMethods = true ∧
      7 + Text.breaks twoMethods < Bound.word32 - 1 ∧
      ∃ spans, Yields twoMethods 0 spans ∧
        Method.extract twoMethods 7 = spans.map (Span.method twoMethods 7) ∧
        (spans.Pairwise fun a b => a.stop ≤ b.header.start) ∧
        ∀ s ∈ spans, s.Placed twoMethods 7 :=
  ⟨by decide +kernel, by decide +kernel, by decide +kernel,
    (extract_located twoMethods 7 (by decide +kernel) (by decide) (by decide +kernel)).1⟩

end PascalSurvey.Routine
