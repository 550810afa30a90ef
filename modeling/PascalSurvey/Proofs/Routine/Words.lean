/-
PascalSurvey/Proofs/Routine/Words.lean

The code words of an overlay.  A code word is a run of identifier bytes that starts with a
letter or an underscore and follows neither an identifier byte nor a dot or an ampersand;
`words m a b` lists where the code words between two offsets start.

The overlay is all that is needed to find them: a run of identifier bytes is the same in the
text and in its overlay (`identRun_overlay`), whether a code word starts at a code byte can be
seen in either (`wordStart_overlay`), and the semicolon behind a closing `end` is found behind
blanks of the overlay, which is where comments are (`semicolonAfter?_eq`).
-/
import PascalSurvey.Routine.Body
import PascalSurvey.Proofs.Routine.Header

namespace PascalSurvey.Routine.Body

open Ascii Source

/-! ### Words between offsets -/

/-- A byte after which no code word starts. -/
def binds (b : UInt8) : Bool := isIdentByte b || b == dot || b == ampersand

/-- The byte before an offset. -/
def byteBefore? (m : Text) : Nat → Option UInt8
  | 0 => none
  | i + 1 => m[i]?

/-- Whether a code word starts at an offset of an overlay. -/
def wordStart (m : Text) (i : Nat) : Bool :=
  (m[i]?).any isIdentStart && !(byteBefore? m i).any binds

/-- Where the code words between two offsets start. -/
def words (m : Text) (a b : Nat) : List Nat := (List.range' a (b - a)).filter (wordStart m)

/-- Where the word at an offset ends. -/
def wordEnd (m : Text) (q : Nat) : Nat := q + identRun (m.drop q)

/-- What the word at an offset means. -/
def wordAt (m : Text) (q : Nat) : Word := Word.ofText ((m.drop q).take (identRun (m.drop q)))

/-- The header that the word at an offset begins. -/
def headerAt (m : Text) (q : Nat) : Option Header :=
  match wordAt m q with
  | .routine _ => Header.atPlace? (Cursor.ofOffset m q)
  | _ => none

/-- Whether only blanks and literals stand between two offsets. -/
def clear (m : Text) (a b : Nat) : Bool := (Text.slice m a b).all fun c => isBlank c || c == quote

@[simp] theorem words_self (m : Text) (a : Nat) : words m a a = [] := by
  simp [words]

theorem words_append (m : Text) {a b c : Nat} (hab : a ≤ b) (hbc : b ≤ c) :
    words m a b ++ words m b c = words m a c := by
  obtain ⟨k, rfl⟩ := Nat.exists_eq_add_of_le hab
  obtain ⟨l, rfl⟩ := Nat.exists_eq_add_of_le hbc
  simp only [words, ← List.filter_append, Nat.add_sub_cancel_left]
  rw [show a + k + l - a = k + l by omega, ← List.range'_append_1]

theorem mem_words {m : Text} {a b q : Nat} :
    q ∈ words m a b ↔ a ≤ q ∧ q < b ∧ wordStart m q = true := by
  simp only [words, List.mem_filter, List.mem_range'_1]
  constructor
  · rintro ⟨⟨ha, hb⟩, hq⟩
    exact ⟨ha, by omega, hq⟩
  · rintro ⟨ha, hb, hq⟩
    exact ⟨⟨ha, by omega⟩, hq⟩

theorem words_eq_nil {m : Text} {a b : Nat} (h : ∀ i, a ≤ i → i < b → wordStart m i = false) :
    words m a b = [] := by
  simp only [words, List.filter_eq_nil_iff, List.mem_range'_1]
  intro i hi
  rw [h i hi.1 (by omega)]
  simp

theorem words_cons {m : Text} {a b : Nat} (hab : a < b) (h : wordStart m a = true) :
    words m a b = a :: words m (a + 1) b := by
  obtain ⟨k, rfl⟩ := Nat.exists_eq_add_of_lt hab
  simp only [words, show a + k + 1 - a = k + 1 by omega, List.range'_succ]
  rw [List.filter_cons_of_pos h, show a + k + 1 - (a + 1) = k by omega]

/-- Words may be looked for behind a stretch that has none. -/
theorem words_skip {m : Text} {a b c : Nat} (hab : a ≤ b) (hbc : b ≤ c) (h : words m a b = []) :
    words m a c = words m b c := by
  rw [← words_append m hab hbc, h, List.nil_append]

/-- No word stands before the first one. -/
theorem words_first {m : Text} {a b q : Nat} {ws : List Nat} (h : words m a b = q :: ws) :
    a ≤ q ∧ q < b ∧ wordStart m q = true ∧ words m a q = [] := by
  obtain ⟨ha, hb, hq⟩ := mem_words.mp (h ▸ List.mem_cons_self (a := q) (l := ws))
  refine ⟨ha, hb, hq, ?_⟩
  rcases hpre : words m a q with - | ⟨q', ws'⟩
  · rfl
  · have hq' := (mem_words.mp (hpre ▸ List.mem_cons_self (a := q') (l := ws'))).2.1
    rw [← words_append _ ha (Nat.le_of_lt hb), hpre, List.cons_append, List.cons.injEq] at h
    omega

theorem clear_self (m : Text) (a : Nat) : clear m a a = true := by
  simp [clear, Text.slice]

theorem clear_iff {m : Text} {a b : Nat} :
    clear m a b = true ↔
      ∀ i c, a ≤ i → i < b → m[i]? = some c → (isBlank c || c == quote) = true := by
  simp only [clear, Text.slice, List.all_eq_true, List.mem_iff_getElem?, List.getElem?_take,
    List.getElem?_drop]
  constructor
  · intro h i c ha hb hc
    refine h c ⟨i - a, ?_⟩
    rw [if_pos (by omega), Nat.add_sub_cancel' ha]
    exact hc
  · rintro h c ⟨j, hj⟩
    split at hj
    · exact h (a + j) c (by omega) (by omega) hj
    · cases hj

theorem clear_trans (m : Text) {a b c : Nat} (hab : a ≤ b) (hbc : b ≤ c) :
    clear m a c = (clear m a b && clear m b c) := by
  obtain ⟨k, rfl⟩ := Nat.exists_eq_add_of_le hab
  obtain ⟨l, rfl⟩ := Nat.exists_eq_add_of_le hbc
  simp only [clear, Text.slice, ← List.all_append, Nat.add_sub_cancel_left]
  rw [show a + k + l - a = k + l by omega, List.take_add, List.drop_drop]

/-! ### Text and overlay at a word -/

theorem isIdentByte_of_isFiller {b : UInt8} (h : isFiller b = true) : isIdentByte b = false := by
  simp only [isFiller, Bool.or_eq_true, beq_iff_eq] at h
  rcases h with ((rfl | rfl) | rfl) | rfl <;> decide

theorem not_binds_of_isBlank {c : UInt8} (h : isBlank c = true) : Body.binds c = false := by
  simp only [isBlank, Bool.or_eq_true, beq_iff_eq] at h
  rcases h with (((rfl | rfl) | rfl) | rfl) | rfl <;> decide

theorem binds_of_isEdge {b : UInt8} (h : isEdge b = true) : binds b = false := by
  simp only [isEdge, isFiller, Bool.or_eq_true, beq_iff_eq] at h
  rcases h with ((((rfl | rfl) | rfl) | rfl) | rfl) | rfl <;> decide

/-- A region begins with no identifier byte, and neither does its overlay. -/
theorem region_head {t : Text} {kind : Region} {n : Nat} (h : regionAt? t = some (kind, n)) :
    ∃ b r c q, t = b :: r ∧ isIdentByte b = false ∧ overlay t = c :: q ∧ isFiller c = true := by
  obtain ⟨hpos, hle⟩ := regionAt?_bounds h
  have hne : (Piece.region kind (t.take n)).masked .commentsAndLiterals ≠ [] := by
    rw [← List.length_pos_iff]
    simp
    omega
  obtain ⟨c, q, hcq⟩ := List.exists_cons_of_ne_nil hne
  have hc : isFiller c = true := isFiller_of_mem_region h (by rw [hcq]; exact List.mem_cons_self)
  have hov : overlay t = c :: (q ++ overlay (t.drop n)) := by
    rw [overlay_region h, hcq]
    rfl
  cases opens_of_regionAt? h with
  | line r | brace r | star r | literal r => exact ⟨_, _, c, _, rfl, by decide, hov, hc⟩

theorem identRun_cons (b : UInt8) (r : Text) :
    identRun (b :: r) = if isIdentByte b then identRun r + 1 else 0 := by
  unfold identRun
  rw [List.takeWhile_cons]
  split <;> simp_all

theorem identRun_pos {b : UInt8} (r : Text) (hb : isIdentStart b = true) :
    0 < identRun (b :: r) := by
  rw [identRun_cons, if_pos (isIdentStart_isIdentByte hb)]
  omega

theorem identRun_le (t : Text) : identRun t ≤ t.length := List.takeWhile_sublist _ |>.length_le

/-- A run of identifier bytes is the same in the text and in its overlay, and it ends
outside. -/
theorem identRun_overlay (t : Text) :
    identRun (overlay t) = identRun t ∧
      (overlay t).take (identRun t) = t.take (identRun t) ∧ Outside t (identRun t) := by
  induction t using piecewise with
  | nil => exact ⟨by simp, by simp, outside_zero []⟩
  | code b r hr ih =>
    obtain ⟨hrun, htake, hout⟩ := ih
    rw [overlay_code hr, identRun_cons, identRun_cons]
    split
    · exact ⟨by rw [hrun], by rw [List.take_succ_cons, List.take_succ_cons, htake],
        (outside_succ_code hr).mpr hout⟩
    · exact ⟨rfl, rfl, outside_zero _⟩
  | region t kind n hr ih =>
    obtain ⟨b, r, c, q, ht, hb, hov, hc⟩ := region_head hr
    have h0 : identRun t = 0 := by
      rw [ht, identRun_cons, hb]
      rfl
    have h0' : identRun (overlay t) = 0 := by
      rw [hov, identRun_cons, isIdentByte_of_isFiller hc]
      rfl
    rw [h0, h0']
    exact ⟨rfl, rfl, outside_zero t⟩

theorem any_byteBefore? {t : Text} {p : Nat} {b : UInt8} {r : Text} (hout : Outside t p)
    (hd : t.drop p = b :: r) (hb : b ≠ newline) {f : UInt8 → Bool}
    (hf : ∀ a, isEdge a = true → f a = false) :
    (byteBefore? t p).any f = (byteBefore? (overlay t) p).any f := by
  cases p with
  | zero => rfl
  | succ p =>
    refine hout.any_before ?_ hb hf
    rw [← List.head?_drop, hd]
    rfl

theorem any_binds (o : Option UInt8) :
    o.any binds = (o.any isIdentByte || o.any fun c => c == dot || c == ampersand) := by
  cases o with
  | none => rfl
  | some b => simp [binds, Bool.or_assoc]

/-- Whether a code word starts at a code byte can be seen in the text itself. -/
theorem wordStart_overlay {t : Text} {p : Nat} {b : UInt8} {r : Text} (hout : Outside t p)
    (hd : t.drop p = b :: r) (hr : regionAt? (b :: r) = none) :
    wordStart (overlay t) p = (isIdentStart b && !(byteBefore? t p).any binds) := by
  have hat : (overlay t)[p]? = some b := by
    refine Text.getElem?_of_drop (r := overlay r) ?_
    rw [hout.overlay_drop, hd, overlay_code hr]
  rw [wordStart, hat, Option.any_some]
  cases hb : isIdentStart b with
  | false => rfl
  | true =>
    have hne : b ≠ newline := by
      rintro rfl
      exact absurd hb (by decide)
    rw [any_byteBefore? hout hd hne fun a => binds_of_isEdge]

theorem wordStart_of_isFiller {m : Text} {i : Nat} {b : UInt8} (hb : m[i]? = some b)
    (hf : isFiller b = true) : wordStart m i = false := by
  have hid : isIdentStart b = false := by
    cases h : isIdentStart b with
    | false => rfl
    | true => exact absurd (isIdentStart_isIdentByte h) (by simp [isIdentByte_of_isFiller hf])
  simp [wordStart, hb, hid]

/-- No word starts inside a run of identifier bytes. -/
theorem wordStart_in_run {m : Text} {q i : Nat} (hqi : q < i) (hi : i ≤ wordEnd m q) :
    wordStart m i = false := by
  obtain ⟨j, rfl⟩ := Nat.exists_eq_add_of_lt hqi
  -- the byte before is one of the run
  have hlt : j < identRun (m.drop q) := by
    unfold wordEnd at hi
    omega
  obtain ⟨c, hc, hident⟩ := Text.getElem?_of_lt_takeWhile hlt
  rw [List.getElem?_drop] at hc
  simp [wordStart, byteBefore?, hc, binds, hident]

theorem getElem?_of_wordStart {m : Text} {q : Nat} (h : wordStart m q = true) :
    ∃ c, m[q]? = some c ∧ isIdentStart c = true := by
  simp only [wordStart, Bool.and_eq_true, Option.any_eq_true] at h
  exact h.1

theorem lt_wordEnd {m : Text} {q : Nat} (h : wordStart m q = true) : q < wordEnd m q := by
  obtain ⟨c, hc, hid⟩ := getElem?_of_wordStart h
  have := identRun_pos (m.drop (q + 1)) hid
  rw [← Text.drop_of_getElem? hc] at this
  unfold wordEnd
  omega

theorem wordEnd_le {m : Text} {q : Nat} (hq : q ≤ m.length) : wordEnd m q ≤ m.length := by
  have := identRun_le (m.drop q)
  rw [List.length_drop] at this
  unfold wordEnd
  omega

/-- No other word starts inside a word. -/
theorem words_succ {m : Text} {q b : Nat} (h : wordStart m q = true) (hb : wordEnd m q ≤ b) :
    words m (q + 1) b = words m (wordEnd m q) b :=
  words_skip (lt_wordEnd h) hb
    (words_eq_nil fun _ hi hlt => wordStart_in_run hi (Nat.le_of_lt hlt))

/-- The words from an offset on, when a word starts there. -/
theorem words_eq_cons {m : Text} {q b : Nat} (h : wordStart m q = true) (hb : wordEnd m q ≤ b) :
    words m q b = q :: words m (wordEnd m q) b := by
  have hq := lt_wordEnd h
  rw [words_cons (by omega) h, words_succ h hb]

theorem wordStart_outside {t : Text} {q : Nat} (h : wordStart (overlay t) q = true) :
    Outside t q ∧ Outside t (wordEnd (overlay t) q) := by
  obtain ⟨c, hc, hid⟩ := getElem?_of_wordStart h
  have hfill : isFiller c = false := by
    cases hf : isFiller c with
    | false => rfl
    | true => exact absurd (isIdentStart_isIdentByte hid) (by simp [isIdentByte_of_isFiller hf])
  have hout := (outside_of_isCode (isCode_of_not_filler hc hfill)).1
  obtain ⟨hsame, -, hrun⟩ := identRun_overlay (t.drop q)
  refine ⟨hout, ?_⟩
  rw [wordEnd, hout.overlay_drop, hsame]
  exact hout.add hrun

theorem headerAt_located {m : Text} {q : Nat} (hq : q ≤ m.length) {h : Header}
    (hh : headerAt m q = some h) :
    h.start = q ∧ h.keywordStart = q ∧ h.isClassMethod = false ∧ h.Located m := by
  unfold headerAt at hh
  split at hh
  · exact Header.atPlace?_located hq hh
  · cases hh

theorem ne_quote_of_regionAt? {b : UInt8} {r : Text} (h : regionAt? (b :: r) = none) :
    b ≠ quote := by
  rintro rfl
  cases h

theorem clear_succ {m : Text} {p : Nat} {b : UInt8} (h : m[p]? = some b) (hb : b ≠ quote) :
    clear m p (p + 1) = isBlank b := by
  simp [clear, Text.slice, Text.drop_of_getElem? h, hb]

/-- A region has no words, and a `class` before it still counts behind it. -/
theorem region_clear {t : Text} {p n : Nat} {kind : Region} (hout : Outside t p)
    (hr : regionAt? (t.drop p) = some (kind, n)) :
    words (overlay t) p (p + n) = [] ∧ clear (overlay t) p (p + n) = true := by
  have hn := (regionAt?_bounds hr).2
  have hfill : ∀ i c, p ≤ i → i < p + n → (overlay t)[i]? = some c → isFiller c = true := by
    intro i c hpi hi hc
    obtain ⟨j, rfl⟩ := Nat.exists_eq_add_of_le hpi
    have hj : j < ((Piece.region kind ((t.drop p).take n)).masked .commentsAndLiterals).length := by
      simp only [Piece.length_masked, Piece.text_region, List.length_take]
      omega
    rw [← List.getElem?_drop, hout.overlay_drop, overlay_region hr,
      List.getElem?_append_left hj] at hc
    exact isFiller_of_mem_region hr (List.mem_of_getElem? hc)
  constructor
  · apply words_eq_nil
    intro i hpi hi
    rcases hc : (overlay t)[i]? with - | c
    · simp [wordStart, hc]
    · exact wordStart_of_isFiller hc (hfill i c hpi hi hc)
  · apply clear_iff.mpr
    intro i c hpi hi hc
    have := hfill i c hpi hi hc
    simp only [isFiller, Bool.or_eq_true, beq_iff_eq] at this
    rcases this with ((rfl | rfl) | rfl) | rfl <;> decide

/-! ### The semicolon behind a closing `end` -/

/-- The length through a semicolon that only blanks separate from the head of an overlay. -/
def throughSemicolon? (m : Text) : Option Nat :=
  if m[Source.blankRun m]? = some semicolon then some (Source.blankRun m + 1) else none

theorem throughSemicolon?_blanks {bs : Text} (hbs : ∀ b ∈ bs, isBlank b = true) (m : Text) :
    throughSemicolon? (bs ++ m) = (throughSemicolon? m).map (· + bs.length) := by
  have hrun : Source.blankRun (bs ++ m) = bs.length + Source.blankRun m := by
    unfold Source.blankRun
    rw [List.takeWhile_append_of_pos hbs, List.length_append]
  unfold throughSemicolon?
  rw [hrun, List.getElem?_append_right (by omega), Nat.add_sub_cancel_left]
  split
  · simp
    omega
  · rfl

theorem throughSemicolon?_cons {b : UInt8} {m : Text} (hb : isBlank b = false) :
    throughSemicolon? (b :: m) = if b = semicolon then some 1 else none := by
  simp [throughSemicolon?, Source.blankRun, hb]

/-- The semicolon after a closing `end` can be found in the overlay. -/
theorem semicolonAfter?_eq (t : Text) :
    semicolonAfter? t.length t = throughSemicolon? (overlay t) := by
  induction t using piecewise with
  | nil =>
    rw [semicolonAfter?, overlay_nil]
    rfl
  | code b r hr ih =>
    rw [overlay_code hr, semicolonAfter?, hr]
    simp only [List.length_cons, Nat.succ_ne_zero, if_false, Nat.add_sub_cancel]
    rw [ih]
    by_cases hb : isBlank b = true
    · have hne : b ≠ semicolon := by
        rintro rfl
        exact absurd hb (by decide)
      rw [if_neg hne, if_pos hb, ← List.singleton_append (l := overlay r),
        throughSemicolon?_blanks (by simpa using hb)]
      rfl
    · rw [throughSemicolon?_cons (by simpa using hb), if_neg hb]
  | region t kind n hr ih =>
    obtain ⟨hpos, hle⟩ := regionAt?_bounds hr
    by_cases hk : kind = .literal
    · subst hk
      cases opens_of_regionAt? hr with
      | literal r =>
        obtain ⟨m, hm⟩ := overlay_quote r
        rw [semicolonAfter?, hr, if_neg (by simp), hm, throughSemicolon?_cons (by decide)]
        rfl
    · have hblank := fun b => isBlank_of_mem_comment (t := t.take n) (b := b) hk
      rw [overlay_region hr, throughSemicolon?_blanks hblank, ← ih]
      obtain ⟨b, r, rfl⟩ := List.exists_cons_of_length_pos (by omega : 0 < t.length)
      obtain ⟨k, rfl⟩ := Nat.exists_eq_succ_of_ne_zero (by omega : n ≠ 0)
      rw [semicolonAfter?, hr, if_neg (by simp)]
      simp [Nat.min_eq_left (Nat.le_of_succ_le_succ hle)]

/-- The offset behind a closing `end` that ends at `e`, and behind its semicolon if there is
one. -/
def closeAt (m : Text) (e : Nat) : Nat := e + (throughSemicolon? (m.drop e)).getD 0

theorem closeAt_eq {t : Text} {e : Nat} (hout : Outside t e) :
    e + (semicolonAfter? (t.length - e) (t.drop e)).getD 0 = closeAt (overlay t) e := by
  rw [closeAt, hout.overlay_drop, ← semicolonAfter?_eq, List.length_drop]

theorem closeAt_cases (m : Text) (e : Nat) :
    closeAt m e = e ∨ ∃ n, closeAt m e = e + n + 1 ∧ m[e + n]? = some semicolon ∧
      ∀ i c, e ≤ i → i < e + n → m[i]? = some c → isBlank c = true := by
  unfold closeAt throughSemicolon?
  split
  · next hsemi =>
    rw [List.getElem?_drop] at hsemi
    refine .inr ⟨_, rfl, hsemi, fun i c hi hlt hc => ?_⟩
    obtain ⟨j, rfl⟩ := Nat.exists_eq_add_of_le hi
    rw [← List.getElem?_drop] at hc
    obtain ⟨c', hc', hblank⟩ := Text.getElem?_of_lt_takeWhile (p := isBlank) (t := m.drop e) (j := j)
      (by unfold Source.blankRun at hlt; omega)
    rw [hc] at hc'
    exact Option.some.inj hc' ▸ hblank
  · exact .inl rfl

theorem closeAt_outside {t : Text} {e : Nat} (hout : Outside t e) :
    Outside t (closeAt (overlay t) e) := by
  rcases closeAt_cases (overlay t) e with h | ⟨n, h, hsemi, -⟩
  · rwa [h]
  · rw [h]
    exact outside_succ_of_overlay hsemi (by decide)

theorem le_closeAt (m : Text) (e : Nat) : e ≤ closeAt m e := Nat.le_add_right _ _

theorem closeAt_le {m : Text} {e : Nat} (he : e ≤ m.length) : closeAt m e ≤ m.length := by
  rcases closeAt_cases m e with h | ⟨n, h, hsemi, -⟩
  · omega
  · have := Text.lt_length_of_getElem? hsemi
    omega

/-- No word stands between a closing `end` and its semicolon. -/
theorem words_closeAt (m : Text) (e : Nat) : words m e (closeAt m e) = [] := by
  rcases closeAt_cases m e with h | ⟨n, h, hsemi, hblank⟩
  · rw [h, words_self]
  · rw [h]
    apply words_eq_nil
    intro i hi hlt
    rcases hc : m[i]? with - | c
    · simp [wordStart, hc]
    · have hid : isIdentStart c = false := by
        cases hid : isIdentStart c with
        | false => rfl
        | true =>
          rcases Nat.eq_or_lt_of_le (Nat.le_of_lt_succ hlt) with rfl | hlt
          · rw [hc] at hsemi
            cases hsemi
            exact absurd hid (by decide)
          · have := hblank i c hi hlt hc
            rw [not_isBlank_of_isIdentStart hid] at this
            cases this
      simp [wordStart, hc, hid]

end PascalSurvey.Routine.Body
