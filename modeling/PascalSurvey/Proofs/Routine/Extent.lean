/-
PascalSurvey/Proofs/Routine/Extent.lean

How far a body reaches.  A body that the grammar accepts reaches to its last `end`, and to the
semicolon behind that if only blanks and comments stand between (`EndsBehind`).  Every other
body is cut: at the end of the text, or before a header that cannot be part of it
(`CutsBody`), with a `class` that directly precedes that header.

The words read so far say how many blocks are open (`Open`), as `Rest` says it of the words
that are left, and which `class` directly precedes the next word (`classBefore?`); both are
kept from word to word (`Reached`).
-/
import PascalSurvey.Proofs.Routine.Grammar

namespace PascalSurvey.Routine.Body

open Ascii Source

/-! ### Behind a closing `end` -/

/-- A piece that may stand between a closing `end` and its semicolon: a blank or a comment. -/
def separates : Piece → Bool
  | .code b => isBlank b
  | .region kind _ => kind ≠ .literal

/-- The first `n` bytes of some pieces are blanks, comments and then a semicolon. -/
inductive ToSemicolon : List Piece → Nat → Prop
  | semicolon (ps : List Piece) : ToSemicolon (.code semicolon :: ps) 1
  | skip {p : Piece} {ps : List Piece} {n : Nat} : separates p = true → ToSemicolon ps n →
      ToSemicolon (p :: ps) (n + p.text.length)

/-- A routine whose last word ends at `a` ends at `e`: behind the semicolon if there is one. -/
def EndsBehind (t : Text) (a e : Nat) : Prop :=
  (∃ n, ToSemicolon (pieces (t.drop a)) n ∧ e = a + n) ∨
    (e = a ∧ ∀ n, ¬ToSemicolon (pieces (t.drop a)) n)

/-- The semicolon in the overlay is the one behind blanks and comments. -/
theorem throughSemicolon?_overlay_iff (t : Text) (n : Nat) :
    throughSemicolon? (overlay t) = some n ↔ ToSemicolon (pieces t) n := by
  induction t using piecewise generalizing n with
  | nil =>
    rw [pieces]
    constructor
    · intro h
      rw [overlay_nil] at h
      cases h
    · intro h
      cases h
  | code b r hr ih =>
    rw [overlay_code hr, pieces_code hr]
    by_cases hb : isBlank b = true
    · rw [← List.singleton_append, throughSemicolon?_blanks (by simpa using hb),
        Option.map_eq_some_iff]
      constructor
      · rintro ⟨k, hk, rfl⟩
        exact .skip hb ((ih k).mp hk)
      · intro h
        cases h with
        | semicolon => exact absurd hb (by decide)
        | @skip _ _ k _ hk => exact ⟨k, (ih k).mpr hk, rfl⟩
    · rw [throughSemicolon?_cons (by simpa using hb)]
      constructor
      · intro h
        split at h
        · next heq =>
          cases h
          rw [heq]
          exact .semicolon _
        · cases h
      · intro h
        cases h with
        | semicolon => rfl
        | skip hsep _ => exact absurd hsep hb
  | region t kind k hr ih =>
    rw [pieces_region hr]
    by_cases hk : kind = .literal
    · subst hk
      cases opens_of_regionAt? hr with
      | literal r =>
        obtain ⟨m, hm⟩ := overlay_quote r
        rw [hm, throughSemicolon?_cons (by decide), if_neg (by decide)]
        constructor
        · intro h
          cases h
        · intro h
          cases h with
          | skip hsep _ => cases hsep
    · have hlen : ((Piece.region kind (t.take k)).masked .commentsAndLiterals).length =
          (Piece.region kind (t.take k)).text.length := Piece.length_masked _ _
      rw [overlay_region hr, throughSemicolon?_blanks fun b => isBlank_of_mem_comment hk,
        Option.map_eq_some_iff, hlen]
      constructor
      · rintro ⟨j, hj, rfl⟩
        exact .skip (by simpa [separates] using hk) ((ih j).mp hj)
      · intro h
        cases h with
        | @skip _ _ j _ hj => exact ⟨j, (ih j).mpr hj, rfl⟩

theorem endsBehind_iff {t : Text} {a e : Nat} (hout : Outside t a) :
    EndsBehind t a e ↔ closeAt (overlay t) a = e := by
  unfold EndsBehind closeAt
  simp only [← throughSemicolon?_overlay_iff, hout.overlay_drop]
  cases throughSemicolon? (overlay (t.drop a)) with
  | none => simp [eq_comm]
  | some n => simp [eq_comm]

/-! ### Before a word -/

/-- The `class` that directly precedes `p`: the last word between `a` and `p`, if only blanks
and literals stand behind it. -/
def classBefore? (m : Text) (a p : Nat) : Option Nat :=
  (words m a p).getLast?.filter fun c => wordAt m c = .classWord && clear m (wordEnd m c) p

/-- The words `ws` leave `d` blocks open. -/
inductive Open (t : Text) : (d : Nat) → (ws : List Nat) → Prop
  | none (ws : List Nat) : Open t 0 ws
  | block {d o : Nat} {ws bs : List Nat} : Open t d ws → wordAt (overlay t) o = .opener →
      IsBlock t bs → Open t (d + 1) (ws ++ o :: bs)

/-- The header at the code word `q` cannot be part of the body from `start` on: it is
qualified, or it is one of a constructor or destructor, or a block is open. -/
def CutsBody (t : Text) (start q : Nat) : Prop :=
  q ∈ codeWords t start t.length ∧ ∃ h kind, wordAt (overlay t) q = .routine kind ∧
    Header.parseAt? (overlay t) q = some h ∧
    (h.isQualified = true ∨ nestable kind = false ∨ ∃ d, Open t (d + 1) (codeWords t start q))

variable {t : Text}

theorem IsBlock.append {bs cs : List Nat} (hb : IsBlock t bs) (hc : IsBlock t cs) :
    IsBlock t (bs ++ cs) := by
  induction hb with
  | nil => exact hc
  | plain hq _ ih => exact .plain hq ih
  | nested ho hbs hcl _ _ ih => simpa using IsBlock.nested ho hbs hcl ih

theorem Open.plain {d q : Nat} {ws : List Nat} (h : Open t d ws) (hq : IsPlain t q) :
    Open t d (ws ++ [q]) := by
  cases h with
  | none => exact .none _
  | block h ho hb =>
    rw [List.append_assoc]
    exact .block h ho (hb.append (.plain hq .nil))

theorem Open.closer {d q : Nat} {ws : List Nat} (h : Open t d ws)
    (hq : wordAt (overlay t) q = .closer) (hd : d ≠ 1) : Open t (d - 1) (ws ++ [q]) := by
  match d, h with
  | 0, _ => exact .none _
  | d + 2, .block (.block h ho' hb') ho hb =>
    -- the block that is closed becomes part of the one around it
    have := Open.block h ho' (hb'.append (.nested ho hb hq .nil))
    simpa using this

/-- What the walk from `start` has read when it is at `p` with state `s`. -/
structure Reached (t : Text) (start p : Nat) (s : State) : Prop where
  start_le : start ≤ p
  outside : Outside t p
  opened : Open t s.depth (words (overlay t) start p)
  /-- No word goes on at `p`. -/
  behind : p < t.length → ∀ c ∈ words (overlay t) start p, wordEnd (overlay t) c ≤ p
  pending : p < t.length → s.pendingClass = classBefore? (overlay t) start p

theorem reached_start {start : Nat} (hout : Outside t start) :
    Reached t start start (State.fresh 0) := by
  refine ⟨Nat.le_refl _, hout, .none _, fun _ c hc => ?_, fun _ => ?_⟩
  · rw [words_self] at hc
    cases hc
  · rw [classBefore?, words_self]
    rfl

/-- Behind a word. -/
theorem Reached.word {start p q : Nat} {s : State} {vs : List Nat} (hr : Reached t start p s)
    (hw : words (overlay t) p t.length = q :: vs) {d : Nat} (n : Nat)
    (hopen : Open t d (words (overlay t) start p ++ [q])) :
    Reached t start (wordEnd (overlay t) q) (State.behind (overlay t) q d n) := by
  obtain ⟨hpq, hq, hstart, hnil⟩ := words_first hw
  have hlt := lt_wordEnd hstart
  have hend := (wordStart_outside hstart).2
  have hstartp := hr.start_le
  have hwords : words (overlay t) start (wordEnd (overlay t) q) =
      words (overlay t) start p ++ [q] := by
    rw [← words_append _ hstartp (show p ≤ wordEnd (overlay t) q by omega),
      words_skip hpq (Nat.le_of_lt hlt) hnil, words_eq_cons hstart (Nat.le_refl _), words_self]
  refine ⟨by omega, hend, by rw [hwords]; exact hopen, fun _ c hc => ?_, fun _ => ?_⟩
  · rw [hwords, List.mem_append, List.mem_singleton] at hc
    rcases hc with hc | rfl
    · have := hr.behind (by omega) c hc
      omega
    · exact Nat.le_refl _
  · rw [classBefore?, hwords, List.getLast?_concat, State.behind]
    simp [Option.filter, clear_self]

/-- Behind a semicolon. -/
theorem reached_semicolon {start p : Nat} (hle : start ≤ p) (hout : Outside t p)
    (hp : p = t.length ∨ (overlay t)[p - 1]? = some semicolon) (n : Nat) :
    Reached t start p ⟨0, n, none⟩ := by
  -- a word before the semicolon also ends before it
  have key (hlt : p < t.length) : ∀ c ∈ words (overlay t) start p,
      wordEnd (overlay t) c ≤ p - 1 ∧ p - 1 < p ∧ (overlay t)[p - 1]? = some semicolon := by
    intro c hc
    obtain ⟨-, hcp, -⟩ := mem_words.mp hc
    have hsemi := hp.resolve_left (by omega)
    refine ⟨?_, by omega, hsemi⟩
    rcases Nat.lt_or_ge (p - 1) (wordEnd (overlay t) c) with hin | hge
    · unfold wordEnd identRun at hin
      obtain ⟨b, hb, hident⟩ := Text.getElem?_of_lt_takeWhile (p := isIdentByte)
        (t := (overlay t).drop c) (j := p - 1 - c) (by omega)
      rw [List.getElem?_drop, Nat.add_sub_cancel' (by omega), hsemi] at hb
      cases hb
      exact absurd hident (by decide)
    · exact hge
  refine ⟨hle, hout, .none _, fun hlt c hc => ?_, fun hlt => ?_⟩
  · have := (key hlt c hc).1
    omega
  · rw [classBefore?]
    rcases hlast : (words (overlay t) start p).getLast? with - | c
    · rfl
    · obtain ⟨hend, hlt', hsemi⟩ := key hlt c (List.mem_of_getLast? hlast)
      have hclear : clear (overlay t) (wordEnd (overlay t) c) p = false := by
        rw [Bool.eq_false_iff]
        intro h
        exact absurd (clear_iff.mp h (p - 1) semicolon hend hlt' hsemi) (by decide)
      simp [Option.filter, hclear]

/-- A `class` that directly precedes the next word is pending there. -/
theorem Reached.across {start p q : Nat} {s : State} {vs : List Nat} (hr : Reached t start p s)
    (hw : words (overlay t) p t.length = q :: vs) :
    (s.across (overlay t) p q).pendingClass = classBefore? (overlay t) start q := by
  obtain ⟨hpq, hq, -, hnil⟩ := words_first hw
  have hp : p < t.length := by omega
  have hwords : words (overlay t) start q = words (overlay t) start p := by
    rw [← words_append _ hr.start_le hpq, hnil, List.append_nil]
  have hpending := hr.pending hp
  rw [classBefore?] at hpending ⊢
  rw [hwords]
  rcases hlast : (words (overlay t) start p).getLast? with - | c
  · rw [hlast] at hpending
    rw [State.across]
    split
    · exact hpending
    · rfl
  · rw [hlast] at hpending
    have hcp := hr.behind hp c (List.mem_of_getLast? hlast)
    rw [State.across, Option.filter, clear_trans _ hcp hpq]
    rw [Option.filter] at hpending
    cases clear (overlay t) p q with
    | true => simpa using hpending
    | false => simp

/-- **Where a body is cut.**  Without a closing `end` the walk stops at the end of the text or
before a header that cannot be part of the body. -/
theorem Reached.cut {start p : Nat} {s : State} (hr : Reached t start p s)
    (h : (walkAt t p s).terminated = false) :
    (walkAt t p s).stop = t.length ∨ ∃ q, CutsBody t start q ∧
      (walkAt t p s).stop = (classBefore? (overlay t) start q).getD q := by
  induction hlen : t.length - p using Nat.strongRecOn generalizing p s with
  | ind n ih =>
    subst hlen
    have hout := hr.outside
    have hsp := hr.start_le
    rcases hw : words (overlay t) p t.length with - | ⟨q, vs⟩
    · left
      rw [walkAt_eq hout, atNextWord, hw]
      rfl
    · obtain ⟨hpq, hq, hstart, hnil⟩ := words_first hw
      have hlt := lt_wordEnd hstart
      have hend := (wordStart_outside hstart).2
      have next {p' : Nat} {s' : State} (hwalk : walkAt t p s = walkAt t p' s') (hp' : p < p')
          (hr' : Reached t start p' s') :
          (walkAt t p s).stop = t.length ∨ ∃ q, CutsBody t start q ∧
            (walkAt t p s).stop = (classBefore? (overlay t) start q).getD q := by
        rw [hwalk] at h ⊢
        exact ih (t.length - p') (by omega) hr' h rfl
      rcases word_cases t q s.depth with hword | hword | hplain | ⟨hd, hn, hdepth⟩ | ⟨hd, hcut⟩
      · -- the words read so far leave one more block open
        exact next (walkAt_opener hout hw hword s) (by omega)
          (hr.word hw _ (.block hr.opened hword .nil))
      · by_cases hdepth : s.depth = 1
        · have hwalk := walkAt_last hout hw hword hdepth
          rcases hn : s.suspended with - | n
          · -- this `end` is a closing one
            rw [hwalk, hn] at h
            cases h
          · rw [hn] at hwalk
            refine next hwalk ?_ ?_
            · have := le_closeAt (overlay t) (wordEnd (overlay t) q)
              omega
            · have hout' := closeAt_outside hend
              rcases closeAt_cases (overlay t) (wordEnd (overlay t) q) with heq | ⟨k, heq, hsemi, -⟩
              · rw [heq]
                have := hr.word hw n (.none (words (overlay t) start p ++ [q]))
                simpa [State.behind, State.fresh, hword] using this
              · exact reached_semicolon (by omega) hout' (.inr (by rw [heq]; exact hsemi)) n
        · exact next (walkAt_closer hout hw hword hdepth) (by omega)
            (hr.word hw _ (hr.opened.closer hword hdepth))
      · exact next (walkAt_plain hout hw hplain s) (by omega) (hr.word hw _ (hr.opened.plain hplain))
      · obtain ⟨-, -, -, hloc⟩ := hn.headerAt_located hq
        obtain ⟨hqstop, hstopend, hle, hout₁, hout₂⟩ := hn.located hq
        have hend' := hloc.end_at
        rw [length_mask] at hend'
        cases hbody : hd.declarationOnly with
        | true =>
          exact next (walkAt_bodiless hout hw hn hbody hdepth) (by omega)
            (reached_semicolon (by omega) hout₂ hend' _)
        | false =>
          exact next (walkAt_nested hout hw hn hbody hdepth) (by omega)
            (reached_semicolon (by omega) hout₁ (.inr hloc.stop_at) _)
      · -- the walk is cut before the header, or before the `class` that is pending
        right
        obtain ⟨kind, hword, hparse, hwhy⟩ := hcut
        refine ⟨q, ⟨?_, hd, kind, hword, hparse, ?_⟩, ?_⟩
        · rw [codeWords_eq_words, mem_words]
          exact ⟨by omega, hq, hstart⟩
        · refine hwhy.imp id (Or.imp id fun hpos => ⟨s.depth - 1, ?_⟩)
          rw [codeWords_eq_words, ← words_append _ hsp hpq, hnil, List.append_nil,
            Nat.sub_add_cancel hpos]
          exact hr.opened
        · rw [walkAt_cut hout hw ⟨kind, hword, hparse, hwhy⟩, hr.across hw]
          rfl

/-! ### The extent of a body -/

/-- **Main.**  From an offset outside comments and literals, a body has a closing `end` and
reaches to `e` exactly if the code words from there on begin with a routine and `e` is behind
the last word of that routine.  Every other body reaches to the end of the text, or to a
header that cannot be part of it and to the `class` before that header. -/
theorem scan_terminated_iff_isRoutine (t : Text) (start : Nat) (hstart : Outside t start) :
    (∀ e, ((scan t (mask .commentsAndLiterals t) start t.length).terminated = true ∧
        (scan t (mask .commentsAndLiterals t) start t.length).stop = e) ↔
      ∃ ws c, ws <+: codeWords t start t.length ∧ IsRoutine t ws ∧ ws.getLast? = some c ∧
        EndsBehind t (wordEnd (overlay t) c) e) ∧
    ((scan t (mask .commentsAndLiterals t) start t.length).terminated = false →
      (scan t (mask .commentsAndLiterals t) start t.length).stop = t.length ∨
      ∃ q, CutsBody t start q ∧ (scan t (mask .commentsAndLiterals t) start t.length).stop =
        (classBefore? (overlay t) start q).getD q) := by
  rw [scan_eq_walkAt]
  refine ⟨fun e => ⟨?_, ?_⟩, fun h => ?_⟩
  · rintro ⟨hterm, rfl⟩
    obtain ⟨ws, vs, c, hws, hrest, hlast, hstop⟩ := rest_of_terminated hstart _ hterm
    have hmem : c ∈ words (overlay t) start t.length := by
      rw [hws]
      exact List.mem_append_left _ (List.mem_of_getLast? hlast)
    cases hrest with
    | routine hr =>
      refine ⟨ws, c, ⟨vs, by rw [codeWords_eq_words, hws]⟩, hr, hlast, ?_⟩
      rw [endsBehind_iff (wordStart_outside (mem_words.mp hmem).2.2).2]
      exact hstop.symm
  · rintro ⟨ws, c, ⟨vs, hws⟩, hr, hlast, hends⟩
    rw [codeWords_eq_words] at hws
    obtain ⟨c', hlast', -, -, hwalk⟩ := readsRoutine hr hstart hws.symm (s := State.fresh 0) rfl
    obtain rfl : c' = c := Option.some.inj (hlast'.symm.trans hlast)
    have hmem : c' ∈ words (overlay t) start t.length := by
      rw [← hws]
      exact List.mem_append_left _ (List.mem_of_getLast? hlast)
    rw [endsBehind_iff (wordStart_outside (mem_words.mp hmem).2.2).2] at hends
    rw [hwalk]
    exact ⟨rfl, hends⟩
  · exact (reached_start hstart).cut h

/-- A body with a block in its block, whose closing `end` stands before a comment. -/
def nestedBlocks : Text := "begin try x := 'end' end; end \x7b;\x7d ; y"

theorem scan_nestedBlocks :
    Outside nestedBlocks 0 ∧ ∃ ws c, ws <+: codeWords nestedBlocks 0 nestedBlocks.length ∧
      IsRoutine nestedBlocks ws ∧ ws.getLast? = some c ∧
      EndsBehind nestedBlocks (wordEnd (overlay nestedBlocks) c) 35 :=
  ⟨outside_zero _, ((scan_terminated_iff_isRoutine nestedBlocks 0 (outside_zero _)).1 35).mp
    (by decide +kernel)⟩

end PascalSurvey.Routine.Body
