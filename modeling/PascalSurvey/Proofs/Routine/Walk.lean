/-
PascalSurvey/Proofs/Routine/Walk.lean

The walk over a body, from word to word.  The walk goes over the bytes of the text and skips
comments and literals itself, while headers are read from the overlay.  Here it is brought
into one form: everything it decides is decided at the code words of the *overlay*, and
between two of them it only forgets a `class` that something other than blanks and literals
separates from the next word (`State.across`).

`walkAt_eq` is that form.  It says what the walk does from any offset that is outside, in
terms of the list `words` of the offsets at which code words start, and it is all that the
later files use of the walk: the grammar of bodies, what an extraction depends on, and how it
goes on in a longer text are all proved by induction over this one equation.
-/
import PascalSurvey.Proofs.Routine.Words

namespace PascalSurvey.Routine.Body

open Ascii Source

/-! ### Between two words -/

/-- A state after passing what stands between two offsets, if no word does. -/
def State.across (m : Text) (a b : Nat) (s : State) : State :=
  if clear m a b then s else { s with pendingClass := none }

theorem State.across_self (m : Text) (a : Nat) (s : State) : s.across m a a = s := by
  simp [State.across, clear_self]

@[simp] theorem State.across_depth (m : Text) (a b : Nat) (s : State) :
    (s.across m a b).depth = s.depth := by
  unfold State.across
  split <;> rfl

@[simp] theorem State.across_suspended (m : Text) (a b : Nat) (s : State) :
    (s.across m a b).suspended = s.suspended := by
  unfold State.across
  split <;> rfl

theorem State.across_trans (m : Text) {a b c : Nat} (hab : a ≤ b) (hbc : b ≤ c) (s : State) :
    (s.across m a b).across m b c = s.across m a c := by
  unfold State.across
  rw [clear_trans m hab hbc]
  cases clear m a b <;> cases clear m b c <;> simp

/-! ### The walk at an offset -/

/-- The walk from an offset of a text to its end. -/
def walkAt (t : Text) (p : Nat) (s : State) : BodyScan :=
  walk t.length (Cursor.ofOffset t p) (Cursor.ofOffset (overlay t) p) s

/-- What comes of a move. -/
def Move.result (t : Text) : Move → BodyScan
  | .halt r => r
  | .goOn p s => walkAt t p s

theorem scan_eq_walkAt (t : Text) (start : Nat) :
    scan t (overlay t) start t.length = walkAt t start (State.fresh 0) := rfl

theorem head?_before_ofOffset {t : Text} {i : Nat} (hi : i ≤ t.length) :
    (Cursor.ofOffset t i).before.head? = byteBefore? t i := by
  rw [Cursor.before_ofOffset, List.head?_reverse]
  cases i with
  | zero => simp [byteBefore?]
  | succ i => simp [byteBefore?, List.getLast?_take, List.getElem?_eq_getElem hi]

/-- One step of the walk, from a place before the end. -/
theorem walkAt_of_step {t : Text} {p : Nat} {s : State} (hp : p < t.length) (move : Move)
    (h : step t.length (Cursor.ofOffset t p) (Cursor.ofOffset (overlay t) p) s = move)
    (hon : ∀ o s', move = .goOn o s' → p < o) : walkAt t p s = move.result t := by
  have hm : p ≤ (overlay t).length := by
    rw [length_mask]
    omega
  unfold walkAt
  rw [walk, h]
  cases move with
  | halt r => rfl
  | goOn o s' =>
    have hne : (Cursor.ofOffset t p).atEnd = false := by
      simp only [Cursor.atEnd, Cursor.after_ofOffset, List.isEmpty_eq_false_iff, ne_eq,
        List.drop_eq_nil_iff]
      omega
    have hpo := hon o s' rfl
    simp only [hne, Bool.false_eq_true, if_false, Cursor.offset_ofOffset (Nat.le_of_lt hp)]
    rw [Cursor.advance_ofOffset (Nat.le_of_lt hp), Cursor.advance_ofOffset hm,
      show p + max 1 (o - p) = o by omega]
    rfl

theorem walkAt_length (t : Text) (s : State) :
    walkAt t t.length s = (s.cut t.length).result t := by
  unfold walkAt
  rw [walk, step, if_pos (Nat.le_of_eq (Cursor.offset_ofOffset (Nat.le_refl _)).symm)]
  rfl

theorem walkAt_region {t : Text} {p n : Nat} {kind : Region} (s : State)
    (hr : regionAt? (t.drop p) = some (kind, n)) : walkAt t p s = walkAt t (p + n) s := by
  obtain ⟨hpos, hle⟩ := regionAt?_bounds hr
  rw [List.length_drop] at hle
  have hp : p < t.length := by omega
  obtain ⟨b, r, hbr⟩ := List.exists_cons_of_length_pos (l := t.drop p) (by simp; omega)
  refine walkAt_of_step hp (.goOn (p + n) s) ?_ ?_
  · rw [step, Cursor.offset_ofOffset (Nat.le_of_lt hp), if_neg (by omega), Cursor.after_ofOffset,
      hbr]
    rw [hbr] at hr
    simp only [hr, Nat.min_eq_left (show p + n ≤ t.length by omega)]
  · rintro o s' heq
    cases heq
    omega

theorem walkAt_other {t : Text} {p : Nat} {b : UInt8} {r : Text} (s : State)
    (hd : t.drop p = b :: r) (hr : regionAt? (b :: r) = none)
    (hb : (isIdentStart b && !(byteBefore? t p).any isIdentByte) = false) :
    walkAt t p s = walkAt t (p + 1) (if isBlank b then s else { s with pendingClass := none }) := by
  have hp : p < t.length := by
    have := congrArg List.length hd
    simp only [List.length_drop, List.length_cons] at this
    omega
  refine walkAt_of_step hp (.goOn (p + 1) _) ?_ ?_
  · rw [step, Cursor.offset_ofOffset (Nat.le_of_lt hp), if_neg (by omega), Cursor.after_ofOffset, hd]
    simp only [hr, head?_before_ofOffset (Nat.le_of_lt hp), hb, Bool.false_eq_true, if_false]
  · rintro o s' heq
    cases heq
    omega

/-- A word behind a dot or an ampersand counts for nothing. -/
theorem walkAt_bound {t : Text} {p : Nat} {b : UInt8} {r : Text} (s : State)
    (hd : t.drop p = b :: r) (hr : regionAt? (b :: r) = none) (hb : isIdentStart b = true)
    (hident : (byteBefore? t p).any isIdentByte = false)
    (hdot : (byteBefore? t p).any (fun c => c == dot || c == ampersand) = true) :
    walkAt t p s = walkAt t (p + identRun (t.drop p)) { s with pendingClass := none } := by
  have hp : p < t.length := by
    have := congrArg List.length hd
    simp only [List.length_drop, List.length_cons] at this
    omega
  have hrun := identRun_le (t.drop p)
  rw [List.length_drop] at hrun
  have hpos := identRun_pos r hb
  rw [← hd] at hpos
  refine walkAt_of_step hp (.goOn (p + identRun (t.drop p)) _) ?_ ?_
  · rw [step, Cursor.offset_ofOffset (Nat.le_of_lt hp), if_neg (by omega), Cursor.after_ofOffset, hd]
    rw [hd] at hrun
    simp only [hr, head?_before_ofOffset (Nat.le_of_lt hp), hb, hident, hdot, Bool.not_false,
      Bool.and_self, if_true, Nat.min_eq_left hrun]
  · rintro o s' heq
    cases heq
    omega

/-- Where the walk can go on after a word.  Only right behind the word can a `class` be
pending. -/
theorem afterWord_goOn {limit start stop : Nat} {word : Word} {header : Option Header}
    {text : Text} {s : State} {o : Nat} {s' : State}
    (h : afterWord limit start stop word header text s = .goOn o s') :
    o = stop ∨ s'.pendingClass = none ∧ (o = stop + (semicolonAfter? (limit - stop) text).getD 0 ∨
      ∃ hd, header = some hd ∧ (o = min hd.directivesEnd limit ∨ o = min hd.stop limit)) := by
  unfold afterWord at h
  cases word with
  | opener | classWord | other =>
    cases h
    exact .inl rfl
  | closer =>
    dsimp only at h
    split at h
    · cases h
      exact .inl rfl
    · split at h
      · cases h
        exact .inl rfl
      · split at h
        · cases h
        · cases h
          exact .inr ⟨rfl, .inl rfl⟩
  | routine kind =>
    cases header with
    | none =>
      cases h
      exact .inl rfl
    | some hd =>
      dsimp only at h
      split at h
      · cases h
      · split at h
        · cases h
          exact .inr ⟨rfl, .inr ⟨hd, rfl, .inl rfl⟩⟩
        · cases h
          exact .inr ⟨rfl, .inr ⟨hd, rfl, .inr rfl⟩⟩

theorem walkAt_word {t : Text} {p : Nat} {b : UInt8} {r : Text} (s : State) (hout : Outside t p)
    (hd : t.drop p = b :: r) (hr : regionAt? (b :: r) = none) (hb : isIdentStart b = true)
    (hident : (byteBefore? t p).any isIdentByte = false)
    (hdot : (byteBefore? t p).any (fun c => c == dot || c == ampersand) = false) :
    walkAt t p s = (afterWord t.length p (wordEnd (overlay t) p) (wordAt (overlay t) p)
      (headerAt (overlay t) p) (t.drop (wordEnd (overlay t) p)) s).result t := by
  have hp : p < t.length := by
    have := congrArg List.length hd
    simp only [List.length_drop, List.length_cons] at this
    omega
  have hrun := identRun_le (t.drop p)
  rw [List.length_drop] at hrun
  have hpos := identRun_pos r hb
  rw [← hd] at hpos
  obtain ⟨hsame, htake, -⟩ := identRun_overlay (t.drop p)
  have hend : wordEnd (overlay t) p = p + identRun (t.drop p) := by
    rw [wordEnd, hout.overlay_drop, hsame]
  have hword : wordAt (overlay t) p = Word.ofText ((t.drop p).take (identRun (t.drop p))) := by
    rw [wordAt, hout.overlay_drop, hsame, htake]
  refine walkAt_of_step hp _ ?_ ?_
  · rw [step, Cursor.offset_ofOffset (Nat.le_of_lt hp), if_neg (by omega), Cursor.after_ofOffset, hd]
    rw [hd] at hrun
    simp only [hr, head?_before_ofOffset (Nat.le_of_lt hp), hb, hident, hdot, Bool.not_false,
      Bool.and_self, if_true, Nat.min_eq_left hrun, Bool.false_eq_true, if_false]
    have hat : wordAt (overlay t) p = Word.ofText ((b :: r).take (identRun (b :: r))) := by
      rw [hword, hd]
    rw [hend, hd, ← List.drop_drop, hd]
    cases hw : Word.ofText ((b :: r).take (identRun (b :: r))) <;> simp only [headerAt, hat, hw]
  · rintro o s' heq
    have hlen : (overlay t).length = t.length := length_mask _ t
    rcases afterWord_goOn heq with rfl | ⟨-, rfl | ⟨h, hh, rfl | rfl⟩⟩
    · omega
    · omega
    · obtain ⟨-, hkey, -, hloc⟩ := headerAt_located (by omega) hh
      have := hloc.keyword_lt
      have := hloc.stop_le
      omega
    · obtain ⟨-, hkey, -, hloc⟩ := headerAt_located (by omega) hh
      have := hloc.keyword_lt
      omega

/-! ### From word to word -/

/-- What comes of going to the next code word of the overlay and deciding there. -/
def atNextWord (t : Text) (p : Nat) (s : State) : BodyScan :=
  match words (overlay t) p t.length with
  | [] => (s.cut t.length).result t
  | q :: _ =>
    (afterWord t.length q (wordEnd (overlay t) q) (wordAt (overlay t) q) (headerAt (overlay t) q)
      (t.drop (wordEnd (overlay t) q)) (s.across (overlay t) p q)).result t

/-- A stretch without words may be left out. -/
theorem atNextWord_skip {t : Text} {p p' : Nat} (hlt : p ≤ p') (hp' : p' ≤ t.length)
    (hnil : words (overlay t) p p' = []) (s : State) :
    atNextWord t p s = atNextWord t p' (s.across (overlay t) p p') := by
  unfold atNextWord
  rw [words_skip hlt hp' hnil]
  rcases hw : words (overlay t) p' t.length with - | ⟨q, ws⟩
  · simp only [State.cut, State.across_depth, State.across_suspended]
  · have hq : p' ≤ q := (mem_words.mp (hw ▸ List.mem_cons_self)).1
    simp only [State.across_trans _ hlt hq]

/-- **The walk from word to word.**  From an offset that is outside, the walk goes to the next
code word of the overlay and decides there; without one it is cut at the end. -/
theorem walkAt_eq {t : Text} {p : Nat} (hout : Outside t p) (s : State) :
    walkAt t p s = atNextWord t p s := by
  induction hlen : t.length - p using Nat.strongRecOn generalizing p s with
  | ind n ih =>
    subst hlen
    rcases Nat.lt_or_ge p t.length with hp | hp
    · obtain ⟨b, r, hd⟩ := List.exists_cons_of_length_pos (l := t.drop p) (by simp; omega)
      rcases hr : regionAt? (b :: r) with - | ⟨kind, n⟩
      · have hat : (overlay t)[p]? = some b := by
          refine Text.getElem?_of_drop (r := overlay r) ?_
          rw [hout.overlay_drop, hd, overlay_code hr]
        cases hid : isIdentStart b && !(byteBefore? t p).any isIdentByte with
        | false =>
          have hout' := hout.code hd hr
          have hnil : words (overlay t) p (p + 1) = [] := by
            apply words_eq_nil
            intro i hpi hi
            obtain rfl : i = p := by omega
            rw [wordStart_overlay hout hd hr, any_binds]
            revert hid
            cases isIdentStart b <;> cases (byteBefore? t i).any isIdentByte <;> simp
          have hs : (if isBlank b then s else { s with pendingClass := none }) =
              s.across (overlay t) p (p + 1) := by
            rw [State.across, clear_succ hat (ne_quote_of_regionAt? hr)]
          rw [walkAt_other s hd hr hid, hs, ih _ (by omega) hout' _ rfl,
            atNextWord_skip (Nat.le_succ p) hout'.le_length hnil]
        | true =>
          obtain ⟨hb, hident⟩ : isIdentStart b = true ∧ (byteBefore? t p).any isIdentByte = false := by
            simpa using hid
          obtain ⟨hsame, -, hrun⟩ := identRun_overlay (t.drop p)
          have hend : wordEnd (overlay t) p = p + identRun (t.drop p) := by
            rw [wordEnd, hout.overlay_drop, hsame]
          have hout' := hout.add hrun
          have hpos := identRun_pos r hb
          rw [← hd] at hpos
          cases hdot : (byteBefore? t p).any fun c => c == dot || c == ampersand with
          | true =>
            have hnil : words (overlay t) p (p + identRun (t.drop p)) = [] := by
              apply words_eq_nil
              intro i hpi hi
              rcases Nat.eq_or_lt_of_le hpi with rfl | hlt
              · rw [wordStart_overlay hout hd hr, any_binds, hdot]
                simp
              · exact wordStart_in_run hlt (by omega)
            have hclear : ¬clear (overlay t) p (p + identRun (t.drop p)) = true := by
              intro h
              have := clear_iff.mp h p b (Nat.le_refl p) (by omega) hat
              simp [ne_quote_of_regionAt? hr, not_isBlank_of_isIdentStart hb] at this
            rw [walkAt_bound s hd hr hb hident hdot, ih _ (by omega) hout' _ rfl,
              atNextWord_skip (Nat.le_add_right p _) hout'.le_length hnil, State.across,
              if_neg hclear]
          | false =>
            have hstart : wordStart (overlay t) p = true := by
              rw [wordStart_overlay hout hd hr, any_binds, hb, hident, hdot]
              rfl
            rw [walkAt_word s hout hd hr hb hident hdot, atNextWord,
              words_eq_cons hstart (hend ▸ hout'.le_length)]
            simp only [State.across_self]
      · rw [← hd] at hr
        have hout' := hout.region hr
        obtain ⟨hnil, hclear⟩ := region_clear hout hr
        have hpos := (regionAt?_bounds hr).1
        rw [walkAt_region s hr, ih _ (by omega) hout' s rfl,
          atNextWord_skip (Nat.le_add_right p n) hout'.le_length hnil, State.across, if_pos hclear]
    · obtain rfl : p = t.length := Nat.le_antisymm hout.le_length hp
      rw [walkAt_length, atNextWord, words_self]

/-- **What the walk does next.**  The first of the words from an offset on decides, and the
rest are the words behind it. -/
theorem walkAt_cons {t : Text} {p q : Nat} {ws : List Nat} (hout : Outside t p)
    (hw : words (overlay t) p t.length = q :: ws) (s : State) :
    q < t.length ∧ p ≤ q ∧ q < wordEnd (overlay t) q ∧ wordStart (overlay t) q = true ∧
      Outside t (wordEnd (overlay t) q) ∧ ws = words (overlay t) (wordEnd (overlay t) q) t.length ∧
      walkAt t p s = (afterWord t.length q (wordEnd (overlay t) q) (wordAt (overlay t) q)
        (headerAt (overlay t) q) (t.drop (wordEnd (overlay t) q))
        (s.across (overlay t) p q)).result t := by
  obtain ⟨hpq, hq, hstart, hnil⟩ := words_first hw
  have hend := (wordStart_outside hstart).2
  have hcons : q :: ws = q :: words (overlay t) (wordEnd (overlay t) q) t.length := by
    rw [← hw, words_skip hpq (Nat.le_of_lt hq) hnil, words_eq_cons hstart hend.le_length]
  refine ⟨hq, hpq, lt_wordEnd hstart, hstart, hend, (List.cons.inj hcons).2, ?_⟩
  rw [walkAt_eq hout, atNextWord, hw]

end PascalSurvey.Routine.Body
