/-
PascalSurvey/Proofs/Routine/Overlaid.lean

The overlay decides.  Headers are read from the overlay, while bodies are walked over in the
text, where comments and literals are skipped a second time.  Here the walk is given a form
that has only the overlay in it: `Walks m p s r` goes from word to word of `m`, with what each
word does given by `moveAt`.  The walk over a text is the one over its overlay
(`walks_walkAt`), and that has one result (`Walks.unique`).

Main result: texts with the same overlay have the same spans, and their methods agree in all
but the text that is cut out (`extract_overlaid`).
-/
import PascalSurvey.Proofs.Routine.Spans

namespace PascalSurvey.Routine

open Ascii Source

namespace Body

/-! ### The walk over an overlay -/

/-- What the walk does at the word at `q` of an overlay. -/
def moveAt (m : Text) (q : Nat) (s : State) : Move :=
  match wordAt m q with
  | .closer =>
    if s.depth = 1 then
      match s.suspended with
      | 0 => .halt ⟨closeAt m (wordEnd m q), true, true⟩
      | n + 1 => .goOn (closeAt m (wordEnd m q)) (State.fresh n)
    else .goOn (wordEnd m q) ⟨s.depth - 1, s.suspended, none⟩
  | word => afterWord m.length q (wordEnd m q) word (headerAt m q) [] s

/-- The walk over the overlay `m` from `p` with state `s` gives `r`. -/
inductive Walks (m : Text) : (p : Nat) → (s : State) → (r : BodyScan) → Prop
  | done {p : Nat} {s : State} : words m p m.length = [] →
      Walks m p s ⟨m.length, false, s.suspended = 0 ∧ 0 < s.depth⟩
  | halt {p q : Nat} {s : State} {vs : List Nat} {r : BodyScan} :
      words m p m.length = q :: vs → moveAt m q (s.across m p q) = .halt r → Walks m p s r
  | goOn {p q o : Nat} {s s' : State} {vs : List Nat} {r : BodyScan} :
      words m p m.length = q :: vs → moveAt m q (s.across m p q) = .goOn o s' → Walks m o s' r →
      Walks m p s r

theorem Walks.unique {m : Text} {p : Nat} {s : State} {r r' : BodyScan} (h : Walks m p s r)
    (h' : Walks m p s r') : r = r' := by
  induction h with
  | done hw =>
    cases h' with
    | done => rfl
    | halt hw' | goOn hw' =>
      rw [hw] at hw'
      cases hw'
  | halt hw hmove =>
    cases h' with
    | done hw' =>
      rw [hw] at hw'
      cases hw'
    | halt hw' hmove' =>
      obtain ⟨rfl, rfl⟩ := List.cons.inj (hw.symm.trans hw')
      exact Move.halt.inj (hmove.symm.trans hmove')
    | goOn hw' hmove' =>
      obtain ⟨rfl, rfl⟩ := List.cons.inj (hw.symm.trans hw')
      cases hmove.symm.trans hmove'
  | goOn hw hmove _ ih =>
    cases h' with
    | done hw' =>
      rw [hw] at hw'
      cases hw'
    | halt hw' hmove' =>
      obtain ⟨rfl, rfl⟩ := List.cons.inj (hw.symm.trans hw')
      cases hmove.symm.trans hmove'
    | goOn hw' hmove' hwalk =>
      obtain ⟨rfl, rfl⟩ := List.cons.inj (hw.symm.trans hw')
      obtain ⟨rfl, rfl⟩ := Move.goOn.inj (hmove.symm.trans hmove')
      exact ih hwalk

/-- A walk goes on behind a stretch that has no words. -/
theorem Walks.skip {m : Text} {p p' : Nat} {s : State} {r : BodyScan} (hpp : p ≤ p')
    (hp' : p' ≤ m.length) (hnil : words m p p' = []) (h : Walks m p' (s.across m p p') r) :
    Walks m p s r := by
  have hwords := words_skip hpp hp' hnil
  have hstate {q : Nat} {vs : List Nat} (hw : words m p' m.length = q :: vs) :
      (s.across m p p').across m p' q = s.across m p q :=
    State.across_trans m hpp (words_first hw).1 s
  cases h with
  | done hw =>
    rw [State.across_suspended, State.across_depth]
    exact .done (hwords.trans hw)
  | halt hw hmove =>
    rw [hstate hw] at hmove
    exact .halt (hwords.trans hw) hmove
  | goOn hw hmove hwalk =>
    rw [hstate hw] at hmove
    exact .goOn (hwords.trans hw) hmove hwalk

variable {t : Text}

/-- What the text says of a word is what its overlay says. -/
theorem afterWord_eq_moveAt {q : Nat} (hend : Outside t (wordEnd (overlay t) q)) (s : State) :
    afterWord t.length q (wordEnd (overlay t) q) (wordAt (overlay t) q) (headerAt (overlay t) q)
      (t.drop (wordEnd (overlay t) q)) s = moveAt (overlay t) q s := by
  unfold moveAt
  cases hword : wordAt (overlay t) q with
  | opener | classWord | other => rfl
  | routine kind => rw [length_mask]; rfl
  | closer =>
    simp only [afterWord, closeAt_eq hend]
    rcases Nat.lt_trichotomy s.depth 1 with hd | hd | hd
    · simp [show s.depth = 0 by omega]
    · cases s.suspended <;> simp [hd]
    · simp [hd, show s.depth ≠ 1 by omega]

/-- Where the walk goes on is behind the word and outside. -/
theorem moveAt_goOn {q o : Nat} {s s' : State} (hq : q < t.length)
    (hend : Outside t (wordEnd (overlay t) q)) (hlt : q < wordEnd (overlay t) q)
    (h : moveAt (overlay t) q s = .goOn o s') : q < o ∧ Outside t o := by
  rw [← afterWord_eq_moveAt hend] at h
  rcases afterWord_goOn h with rfl | ⟨-, rfl | ⟨hd, hh, ho⟩⟩
  · exact ⟨hlt, hend⟩
  · rw [closeAt_eq hend]
    have := le_closeAt (overlay t) (wordEnd (overlay t) q)
    exact ⟨by omega, closeAt_outside hend⟩
  · obtain ⟨-, hkey, -, hloc⟩ := headerAt_located (by rw [length_mask]; omega) hh
    have hstop := hloc.keyword_lt
    have hle := hloc.stop_le
    have hbound := hloc.end_le
    rw [length_mask] at hbound
    rcases ho with rfl | rfl
    · rw [Nat.min_eq_left hbound]
      exact ⟨by omega, hloc.outside_directivesEnd⟩
    · rw [Nat.min_eq_left (by omega)]
      exact ⟨by omega, hloc.outside_stop⟩

/-- **The walk over a text is the one over its overlay.** -/
theorem walks_walkAt {p : Nat} (hout : Outside t p) (s : State) :
    Walks (overlay t) p s (walkAt t p s) := by
  induction hlen : t.length - p using Nat.strongRecOn generalizing p s with
  | ind n ih =>
    subst hlen
    rcases hw : words (overlay t) p t.length with - | ⟨q, vs⟩
    · have hwalk : walkAt t p s = ⟨t.length, false, s.suspended = 0 ∧ 0 < s.depth⟩ := by
        rw [walkAt_eq hout, atNextWord, hw]
        rfl
      rw [hwalk, ← length_mask .commentsAndLiterals t]
      exact .done (by rw [length_mask]; exact hw)
    · -- the first word decides, and what it does can be read off the overlay
      obtain ⟨hq, hpq, hlt, hstart, hend, -, hwalk⟩ := walkAt_cons hout hw s
      rw [afterWord_eq_moveAt hend] at hwalk
      have hw' : words (overlay t) p (overlay t).length = q :: vs := by rw [length_mask]; exact hw
      rcases hmove : moveAt (overlay t) q (s.across (overlay t) p q) with ⟨o, s'⟩ | r
      · obtain ⟨ho, hout'⟩ := moveAt_goOn hq hend hlt hmove
        rw [hwalk, hmove]
        exact .goOn hw' hmove (ih _ (by omega) hout' s' rfl)
      · rw [hwalk, hmove]
        exact .halt hw' hmove

theorem walks_scan {start : Nat} (hout : Outside t start) :
    Walks (overlay t) start (State.fresh 0) (scan t (overlay t) start t.length) := by
  rw [scan_eq_walkAt]
  exact walks_walkAt hout _

end Body

variable {t u : Text}

/-! ### Texts with the same overlay -/

theorem bodyOf_congr (heq : overlay t = overlay u) {h : Header} (hloc : h.Located (overlay t)) :
    bodyOf t h = bodyOf u h := by
  have ht : Body.Walks (overlay t) h.stop (Body.State.fresh 0) (bodyOf t h) :=
    Body.walks_scan hloc.outside_stop
  have hu : Body.Walks (overlay u) h.stop (Body.State.fresh 0) (bodyOf u h) :=
    Body.walks_scan (heq ▸ hloc).outside_stop
  generalize bodyOf t h = r at ht ⊢
  rw [heq] at ht
  exact ht.unique hu

/-- A loop over one text is a loop over the other. -/
theorem Yields.congr (heq : overlay t = overlay u) {p : Nat} {spans : List Span}
    (h : Yields t p spans) : Yields u p spans := by
  induction h with
  | done hfind => exact .done (heq ▸ hfind)
  | declaration hfind hdecl _ ih => exact .declaration (heq ▸ hfind) hdecl ih
  | bodiless hfind hdecl hbody _ ih =>
    rw [bodyOf_congr heq (Header.find?_located hfind).2] at hbody
    exact .bodiless (heq ▸ hfind) hdecl hbody ih
  | method hfind hdecl hbody _ ih =>
    have hsame := bodyOf_congr heq (Header.find?_located hfind).2
    rw [hsame] at hbody ih ⊢
    exact .method (heq ▸ hfind) hdecl hbody ih

/-- Two methods agree in all but the text that is cut out and the line on which it ends. -/
structure Method.Alike (a b : Method) : Prop where
  kind : a.kind = b.kind
  className : a.className = b.className
  name : a.name = b.name
  isClassMethod : a.isClassMethod = b.isClassMethod
  returnType : a.returnType = b.returnType
  parameters : a.parameters = b.parameters
  terminated : a.terminated = b.terminated
  startLine : a.startLine = b.startLine

theorem Span.alike (heq : overlay t = overlay u) (n : Nat) (s : Span) :
    Method.Alike (s.method t n) (s.method u n) := by
  refine ⟨rfl, rfl, rfl, rfl, rfl, ?_, rfl, ?_⟩
  · simp only [Span.method, Method.ofHeader]
    rw [heq]
  · show n + Text.breaks (t.take s.header.start) = n + Text.breaks (u.take s.header.start)
    rw [← breaks_take_overlay t, ← breaks_take_overlay u, heq]

/-- **Main.**  What stands in comments and literals does not matter: in two texts with the same
overlay the loop finds the same spans, and the methods that are cut out there are alike. -/
theorem extract_overlaid (t u : Text)
    (h : mask .commentsAndLiterals t = mask .commentsAndLiterals u) (n : Nat) :
    ∃ spans : List Span, Yields t 0 spans ∧ Yields u 0 spans ∧
      Method.extract t n = spans.map (Span.method t n) ∧
      Method.extract u n = spans.map (Span.method u n) ∧
      ∀ s ∈ spans, Method.Alike (s.method t n) (s.method u n) ∧
        (s.method t n).source = Text.trimEnd (Text.slice t s.header.start s.stop) ∧
        (s.method u n).source = Text.trimEnd (Text.slice u s.header.start s.stop) := by
  obtain ⟨spans, hspans⟩ := exists_yields t 0
  have hspans' := hspans.congr h
  exact ⟨spans, hspans, hspans', hspans.extract n, hspans'.extract n, fun s _ =>
    ⟨s.alike h n, rfl, rfl⟩⟩

/-- A method with keywords in a literal and in a comment. -/
def quotedWords : Text := "function A: T;\nbegin Write('end;') \x7b begin \x7d end;"

/-- The same method with other words there. -/
def otherWords : Text := "function A: T;\nbegin Write('x;''') (*class*) end;"

theorem extract_quotedWords :
    mask .commentsAndLiterals quotedWords = mask .commentsAndLiterals otherWords ∧
      (Method.extract quotedWords 1).length = 1 ∧
      ∃ spans : List Span, Yields quotedWords 0 spans ∧ Yields otherWords 0 spans ∧
        Method.extract quotedWords 1 = spans.map (Span.method quotedWords 1) ∧
        Method.extract otherWords 1 = spans.map (Span.method otherWords 1) ∧
        ∀ s ∈ spans, Method.Alike (s.method quotedWords 1) (s.method otherWords 1) ∧
          (s.method quotedWords 1).source =
            Text.trimEnd (Text.slice quotedWords s.header.start s.stop) ∧
          (s.method otherWords 1).source =
            Text.trimEnd (Text.slice otherWords s.header.start s.stop) :=
  ⟨by decide +kernel, by decide +kernel,
    extract_overlaid quotedWords otherWords (by decide +kernel) 1⟩

end PascalSurvey.Routine
