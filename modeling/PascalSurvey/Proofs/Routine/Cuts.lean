/-
PascalSurvey/Proofs/Routine/Cuts.lean

Where routines are cut out of a text.  Headers, parameter lists, result types, words and
bodies all begin and end next to a byte of the overlay that is neither a blank nor a quote:
a letter, a parenthesis, a colon or a semicolon.  Such a byte stands in the text as well and
is a character of its own, so no cut splits a character, neither in the text nor in its
overlay (`Header.Sliced`, `cut_word`, `cut_scan`).
-/
import PascalSurvey.Proofs.Routine.Extent
import PascalSurvey.Proofs.Text.Boundary
import PascalSurvey.Proofs.Text.Local

namespace PascalSurvey.Routine

open Ascii Source

variable {t : Text}

/-! ### Cuts next to a byte -/

/-- An offset at which neither a character of the text nor one of its overlay is split. -/
def Cut (t : Text) (i : Nat) : Prop := Utf8.Boundary t i ∧ Utf8.Boundary (overlay t) i

theorem cut_length (t : Text) : Cut t t.length := by
  refine ⟨Utf8.boundary_length t, ?_⟩
  rw [← length_mask .commentsAndLiterals t]
  exact Utf8.boundary_length _

/-- The overlay splits no character that the text does not split. -/
theorem cut_of_boundary {i : Nat} (h : Utf8.Boundary t i) : Cut t i := by
  refine ⟨h, by rw [length_mask]; exact h.1, ?_⟩
  cases hcode : isCode t i with
  | true => rw [overlay_getElem?_of_isCode hcode, h.2]
  | false =>
    rcases hb : (overlay t)[i]? with - | b
    · rfl
    · have hfill := isFiller_of_not_isCode hcode hb
      simp only [isFiller, Bool.or_eq_true, beq_iff_eq] at hfill
      rcases hfill with ((rfl | rfl) | rfl) | rfl <;> rfl

theorem cut_of_overlay {i : Nat} {b : UInt8} (hb : (overlay t)[i]? = some b)
    (hf : isFiller b = false) (hascii : b < 0x80) : Cut t i :=
  cut_of_boundary (Utf8.boundary_of_ascii (getElem?_of_overlay hb hf) hascii)

theorem cut_succ_of_overlay (hvalid : Utf8.isValid t = true) {i : Nat} {b : UInt8}
    (hb : (overlay t)[i]? = some b) (hf : isFiller b = false) (hascii : b < 0x80) :
    Cut t (i + 1) :=
  cut_of_boundary (Utf8.boundary_succ_of_ascii hvalid (getElem?_of_overlay hb hf) hascii)

theorem isIdentByte_ascii {b : UInt8} (h : isIdentByte b = true) : isFiller b = false ∧ b < 0x80 :=
  ⟨not_isFiller_of_class h rfl, isIdentByte_lt h⟩

/-- A run of identifier bytes in the overlay begins and ends at a cut. -/
theorem cut_word (hvalid : Utf8.isValid t = true) {q : Nat} {b : UInt8}
    (hb : (overlay t)[q]? = some b) (hident : isIdentByte b = true) :
    Cut t q ∧ Cut t (Body.wordEnd (overlay t) q) := by
  obtain ⟨hf, hascii⟩ := isIdentByte_ascii hident
  refine ⟨cut_of_overlay hb hf hascii, ?_⟩
  have hpos : 0 < identRun ((overlay t).drop q) := by
    rw [Text.drop_of_getElem? hb, Body.identRun_cons, if_pos hident]
    omega
  obtain ⟨c, hc, hident'⟩ := Text.getElem?_of_lt_takeWhile (p := isIdentByte)
    (t := (overlay t).drop q) (j := identRun ((overlay t).drop q) - 1) (by unfold identRun at *; omega)
  rw [List.getElem?_drop] at hc
  obtain ⟨hf', hascii'⟩ := isIdentByte_ascii hident'
  have := cut_succ_of_overlay hvalid hc hf' hascii'
  rwa [show q + (identRun ((overlay t).drop q) - 1) + 1 = Body.wordEnd (overlay t) q by
    unfold Body.wordEnd; omega] at this

/-! ### Headers -/

/-- A keyword without `s` and `k` in front begins with an ASCII letter. -/
theorem matchFold?_head {w : UInt8} {ws u : Text} {n : Nat}
    (h : Text.matchFold? (w :: ws) u = some n) (hw : isLower w = true) (hs : w ≠ 0x73)
    (hk : w ≠ 0x6B) : (u[0]?).any isLetter = true := by
  obtain ⟨b, hb, hlower⟩ := Option.map_eq_some_iff.mp (Text.matchFold?_lower h hs hk)
  rw [hb, Option.any_some]
  exact isLetter_of_lower hlower hw

namespace Header

theorem keyword?_head {u : Text} {n : Nat} (h : keyword? u = some n) :
    (u[0]?).any isLetter = true := by
  obtain ⟨kind, -, hkind⟩ := List.exists_of_findSome?_eq_some h
  cases kind with
  | procedure | function | constructor | destructor =>
    exact matchFold?_head hkind (by decide) (by decide) (by decide)

theorem bare?_head {u : Text} {cand : Candidate} (h : bare? u = some cand) :
    cand.lead = 0 ∧ (u[0]?).any isLetter = true := by
  obtain ⟨hlead, hk, -⟩ := bare?_spec h
  exact ⟨hlead, keyword?_head hk⟩

/-- A candidate begins with a letter, and so does its keyword. -/
theorem words?_head {u : Text} {cand : Candidate} (h : words? u = some cand) :
    (u[0]?).any isLetter = true ∧ (u[cand.lead]?).any isLetter = true := by
  simp only [words?, Option.orElse_eq_orElse, Option.orElse_eq_or, Option.or_eq_some_iff] at h
  rcases h with h | ⟨-, h⟩
  · obtain ⟨lead, hlead, h⟩ := Option.bind_eq_some_iff.mp h
    obtain ⟨cand', hbare, h⟩ := Option.bind_eq_some_iff.mp h
    rw [← Option.some.inj h]
    obtain ⟨n, hn, -⟩ := Option.bind_eq_some_iff.mp hlead
    have := (bare?_head hbare).2
    rw [List.getElem?_drop] at this
    exact ⟨matchFold?_head hn (by decide) (by decide) (by decide), this⟩
  · obtain ⟨hlead, hfirst⟩ := bare?_head h
    rw [hlead]
    exact ⟨hfirst, hfirst⟩

/-- All offsets of a header are cuts. -/
structure Sliced (t : Text) (h : Header) : Prop where
  start : Cut t h.start
  keyword : Cut t h.keywordStart
  stop : Cut t h.stop
  directives : Cut t h.directivesEnd
  params : ∀ {s e}, h.params = some (s, e) → s ≤ e ∧ Cut t s ∧ Cut t e
  result : ∀ {ty}, h.returnType = some ty →
    ∃ s e, s ≤ e ∧ Cut t s ∧ Cut t e ∧ ty = Text.squeeze (Text.slice (overlay t) s e)

theorem cut_of_isLetter {i : Nat} (h : ((overlay t)[i]?).any isLetter = true) : Cut t i := by
  obtain ⟨b, hb, hletter⟩ := Option.any_eq_true _ _ |>.mp h
  obtain ⟨hf, hascii⟩ := isIdentByte_ascii (show isIdentByte b = true by simp [isIdentByte, hletter])
  exact cut_of_overlay hb hf hascii

theorem sliced_of_candidate (hvalid : Utf8.isValid t = true) {i : Nat} (hi : i ≤ t.length)
    {cand : Candidate} {h : Header}
    (hof : ofCandidate? (Cursor.ofOffset (overlay t) i) cand = some h)
    (hfirst : (((overlay t).drop i)[0]?).any isLetter = true)
    (hkey : (((overlay t).drop i)[cand.lead]?).any isLetter = true) : h.Sliced t := by
  obtain ⟨hstart, hkeyword, hloc⟩ := ofCandidate?_located (by rw [length_mask]; exact hi) hof
  rw [List.getElem?_drop] at hfirst hkey
  have hlt := hloc.keyword_lt
  have hle := hloc.stop_le
  -- the offset behind a delimiter
  have behind {k : Nat} {b : UInt8} (hb : (overlay t)[k - 1]? = some b) (hk : 0 < k)
      (hf : isFiller b = false) (hascii : b < 0x80) : Cut t k := by
    have := cut_succ_of_overlay hvalid hb hf hascii
    rwa [Nat.sub_add_cancel hk] at this
  constructor
  · rw [hstart]
    exact cut_of_isLetter hfirst
  · rw [hkeyword]
    exact cut_of_isLetter hkey
  · exact behind hloc.stop_at (by omega) (by decide) (by decide)
  · rcases hloc.end_at with heq | hsemi
    · rw [heq, length_mask]
      exact cut_length t
    · exact behind hsemi (by omega) (by decide) (by decide)
  · intro s e hparams
    obtain ⟨hs, hse, -, hopen, hclose⟩ := hloc.params_at hparams
    exact ⟨hse, behind hopen (by omega) (by decide) (by decide),
      cut_of_overlay hclose (by decide) (by decide)⟩
  · intro ty hty
    obtain ⟨s, e, hs, hse, -, hcolon, hsemi, hsqueeze⟩ := hloc.result_at hty
    exact ⟨s, e, hse, behind hcolon (by omega) (by decide) (by decide),
      cut_of_overlay hsemi (by decide) (by decide), hsqueeze⟩

/-- The candidate of a header begins with a letter, and so does its keyword. -/
theorem StartsAt.letters {m : Text} {i : Nat} {h : Header} (hat : StartsAt m i h) :
    ∃ cand, ofCandidate? (Cursor.ofOffset m i) cand = some h ∧
      ((m.drop i)[0]?).any isLetter = true ∧ ((m.drop i)[cand.lead]?).any isLetter = true := by
  obtain ⟨cand, hcand, hof⟩ := hat
  unfold candidate? at hcand
  split at hcand
  · cases hcand
  · rw [Cursor.after_ofOffset] at hcand
    exact ⟨cand, hof, words?_head hcand⟩

theorem sliced_of_find? (hvalid : Utf8.isValid t = true) {p : Nat} {h : Header}
    (hh : find? (overlay t) p = some h) : h.Sliced t := by
  obtain ⟨-, hlt, hat⟩ := find?_startsAt hh
  rw [length_mask] at hlt
  obtain ⟨cand, hof, hfirst, hkey⟩ := hat.letters
  exact sliced_of_candidate hvalid (Nat.le_of_lt hlt) hof hfirst hkey

/-- A header starts outside comments and literals. -/
theorem outside_start {p : Nat} {h : Header} (hh : find? (overlay t) p = some h) :
    Outside t h.start := by
  obtain ⟨-, -, hat⟩ := find?_startsAt hh
  obtain ⟨cand, -, hfirst, -⟩ := hat.letters
  rw [List.getElem?_drop, Nat.add_zero] at hfirst
  obtain ⟨b, hb, hletter⟩ := (Option.any_eq_true _ _).mp hfirst
  obtain ⟨hf, -⟩ := isIdentByte_ascii (show isIdentByte b = true by simp [isIdentByte, hletter])
  exact (outside_of_isCode (isCode_of_not_filler hb hf)).1

theorem sliced_of_parseAt? (hvalid : Utf8.isValid t = true) {p : Nat} {h : Header}
    (hh : parseAt? (overlay t) p = some h) : h.Sliced t := by
  unfold parseAt? at hh
  split at hh
  · next hp =>
    rw [length_mask] at hp
    unfold atPlace? at hh
    split at hh
    · cases hh
    · obtain ⟨cand, hcand, hof⟩ := Option.bind_eq_some_iff.mp hh
      rw [Cursor.after_ofOffset] at hcand
      obtain ⟨hlead, hfirst⟩ := bare?_head hcand
      exact sliced_of_candidate hvalid hp hof hfirst (by rw [hlead]; exact hfirst)
  · cases hh

end Header

/-! ### Bodies -/

namespace Body

/-- A body ends at the end of the text, next to a code word or behind a semicolon. -/
theorem scan_stop_cases {start : Nat} (hout : Outside t start) :
    (scan t (overlay t) start t.length).stop = t.length ∨
      (∃ q, wordStart (overlay t) q = true ∧
        ((scan t (overlay t) start t.length).stop = q ∨
          (scan t (overlay t) start t.length).stop = wordEnd (overlay t) q)) ∨
      ∃ i, (overlay t)[i]? = some semicolon ∧
        (scan t (overlay t) start t.length).stop = i + 1 := by
  rw [scan_eq_walkAt]
  cases hterm : (walkAt t start (State.fresh 0)).terminated with
  | true =>
    obtain ⟨ws, vs, c, hws, -, hlast, hstop⟩ := rest_of_terminated hout _ hterm
    have hmem : c ∈ words (overlay t) start t.length := by
      rw [hws]
      exact List.mem_append_left _ (List.mem_of_getLast? hlast)
    right
    rw [hstop]
    rcases closeAt_cases (overlay t) (wordEnd (overlay t) c) with heq | ⟨n, heq, hsemi, -⟩
    · rw [heq]
      exact .inl ⟨c, (mem_words.mp hmem).2.2, .inr rfl⟩
    · rw [heq]
      exact .inr ⟨_, hsemi, rfl⟩
  | false =>
    rcases (reached_start hout).cut hterm with hend | ⟨q, ⟨hq, -⟩, hstop⟩
    · exact .inl hend
    · right
      left
      rw [hstop]
      rw [codeWords_eq_words, mem_words] at hq
      rcases hclass : classBefore? (overlay t) start q with - | c
      · exact ⟨q, hq.2.2, .inl rfl⟩
      · have hmem := List.mem_of_getLast? (Option.filter_eq_some_iff.mp hclass).1
        exact ⟨c, (mem_words.mp hmem).2.2, .inl rfl⟩

theorem cut_wordStart (hvalid : Utf8.isValid t = true) {q : Nat}
    (hq : wordStart (overlay t) q = true) : Cut t q ∧ Cut t (wordEnd (overlay t) q) := by
  obtain ⟨b, hb, hident⟩ := getElem?_of_wordStart hq
  exact cut_word hvalid hb (isIdentStart_isIdentByte hident)

theorem cut_scan (hvalid : Utf8.isValid t = true) {start : Nat} (hout : Outside t start) :
    Cut t (scan t (overlay t) start t.length).stop := by
  rcases scan_stop_cases hout with heq | ⟨q, hq, heq | heq⟩ | ⟨i, hsemi, heq⟩
  · rw [heq]
    exact cut_length t
  · rw [heq]
    exact (cut_wordStart hvalid hq).1
  · rw [heq]
    exact (cut_wordStart hvalid hq).2
  · rw [heq]
    exact cut_succ_of_overlay hvalid hsemi (by decide) (by decide)

/-- A body ends outside comments and literals. -/
theorem outside_scan {start : Nat} (hout : Outside t start) :
    Outside t (scan t (overlay t) start t.length).stop := by
  rcases scan_stop_cases hout with heq | ⟨q, hq, heq | heq⟩ | ⟨i, hsemi, heq⟩
  · rw [heq]
    exact outside_length t
  · rw [heq]
    exact (wordStart_outside hq).1
  · rw [heq]
    exact (wordStart_outside hq).2
  · rw [heq]
    exact outside_succ_of_overlay hsemi (by decide)

theorem scan_stop_le {start : Nat} (hout : Outside t start) :
    (scan t (overlay t) start t.length).stop ≤ t.length :=
  (outside_scan hout).le_length

end Body
end PascalSurvey.Routine
