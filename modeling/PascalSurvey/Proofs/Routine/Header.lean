/-
PascalSurvey/Proofs/Routine/Header.lean

Where the parts of a header stand.  `ofCandidate?_eq_some_iff` says once what a header is
made of: the parts are read one behind the other, and the header is `ofParts` of them.  What
follows is read off that: `Located` collects the offsets of a header that lies in a text, in
the order in which they occur, with the bytes that stand at them.

`find?_located` is the statement for the search: the header it gives lies behind the offset
from which the search starts, so a loop that resumes behind a header always moves on.
-/
import PascalSurvey.Routine.Header
import PascalSurvey.Proofs.Source.Parens

namespace PascalSurvey

open Ascii

namespace Routine.Header

/-! ### Directives -/

/-- A directive ends with its semicolon or with the text. -/
theorem directive?_spec {t : Text} {n : Nat} {bodiless : Bool}
    (h : directive? t = some (n, bodiless)) :
    n = t.length ∨ ∃ k, n = k + 1 ∧ t[k]? = some semicolon := by
  unfold directive? at h
  dsimp only at h
  generalize (if (t.drop (Source.blankRun t)).head?.any isIdentStart then
    Source.identRun (t.drop (Source.blankRun t)) else 0) = wordSize at h
  split at h
  · split at h
    · next p hp =>
      obtain ⟨rfl, -⟩ := Prod.mk.inj (Option.some.inj h)
      refine .inr ⟨_, rfl, ?_⟩
      have := Text.getElem?_of_find? hp
      rw [List.drop_drop, List.getElem?_drop] at this
      exact this
    · exact .inl (Prod.mk.inj (Option.some.inj h)).1.symm
  · cases h

/-- The directives end where they begin, with a semicolon or with the text. -/
theorem directives_spec (t : Text) :
    (directives t).1 = 0 ∨ (directives t).1 = t.length ∨
      ∃ k, (directives t).1 = k + 1 ∧ t[k]? = some semicolon := by
  fun_induction directives t with
  | case1 => exact .inl rfl
  | case2 t n bodiless hd hpos m more hrec ih =>
    simp only [hrec] at ih ⊢
    rcases ih with rfl | rfl | ⟨k, rfl, hk⟩
    · exact .inr (by simpa using directive?_spec hd)
    · have hn : n ≤ t.length := by
        rcases directive?_spec hd with h | ⟨k, rfl, hk⟩
        · exact Nat.le_of_eq h
        · exact (List.getElem?_eq_some_iff.mp hk).1
      exact .inr (.inl (by rw [List.length_drop]; omega))
    · rw [List.getElem?_drop] at hk
      exact .inr (.inr ⟨n + k, by omega, hk⟩)
  | case3 t n bodiless hd hpos => exact .inr (directive?_spec hd)

/-! ### The parts of a header -/

/-- Where the parameter list of a candidate may begin, from the place of the candidate on. -/
def toParams (c : Cursor) (m : Candidate) : Nat :=
  m.size + Source.blankRun (c.after.drop m.size)

/-- The header whose parameter list and result type take `n₁` and `n₂` bytes and behind whose
semicolon stands `r`. -/
def ofParts (c : Cursor) (m : Candidate) (params : Option (Nat × Nat)) (n₁ : Nat)
    (returnType : Option Text) (n₂ : Nat) (r : Text) (kind : Kind) : Header :=
  let qualified :=
    splitQualified (Text.withoutBlanks ((c.after.drop (m.lead + m.keyword + m.gap)).take m.name))
  let stop := c.offset + (toParams c m + n₁ + n₂) + 1
  { start := c.offset
    keywordStart := c.offset + m.lead
    stop
    kind
    isClassMethod := m.lead != 0
    className := qualified.1
    name := qualified.2
    params := params.map fun x => (c.offset + toParams c m + x.1, c.offset + toParams c m + x.2)
    returnType
    declarationOnly := (directives r).2
    directivesEnd := stop + (directives r).1 }

/-- A candidate is a header exactly if it may start where it stands and its parts can be read
one behind the other. -/
theorem ofCandidate?_eq_some_iff {c : Cursor} {m : Candidate} {h : Header} :
    ofCandidate? c m = some h ↔
      mayStartAfter c.before = true ∧ ∃ params n₁ returnType n₂ r kind,
        parameters? (c.after.drop (toParams c m)) = some (params, n₁) ∧
        result? (c.after.drop (toParams c m + n₁)) = some (returnType, n₂) ∧
        c.after.drop (toParams c m + n₁ + n₂) = semicolon :: r ∧
        Kind.ofKeyword? ((c.after.drop m.lead).take m.keyword) = some kind ∧
        h = ofParts c m params n₁ returnType n₂ r kind := by
  unfold ofCandidate?
  constructor
  · intro hh
    split at hh
    · cases hh
    · next hstart =>
      simp only [Option.bind_eq_bind, Option.bind_eq_some_iff] at hh
      obtain ⟨⟨params, n₁⟩, hparams, ⟨returnType, n₂⟩, hresult, hh⟩ := hh
      dsimp only at hh
      split at hh
      · next r hr =>
        obtain ⟨kind, hkind, hh⟩ := Option.bind_eq_some_iff.mp hh
        exact ⟨by simpa using hstart, params, n₁, returnType, n₂, r, kind, hparams, hresult, hr,
          hkind, (Option.some.inj hh).symm⟩
      · cases hh
  · rintro ⟨hstart, params, n₁, returnType, n₂, r, kind, hparams, hresult, hr, hkind, rfl⟩
    unfold toParams at hparams hresult hr
    simp only [hstart, Bool.not_true, Bool.false_eq_true, if_false, Option.bind_eq_bind, hparams,
      Option.bind_some, hresult, hr, hkind]
    rfl

/-- A parameter list is nothing, or it stands between its parentheses. -/
theorem parameters?_spec {t : Text} {params : Option (Nat × Nat)} {n : Nat}
    (h : parameters? t = some (params, n)) :
    (params = none ∧ n = 0) ∨ ∃ close, params = some (1, close) ∧ 1 ≤ close ∧ close < n ∧
      t[0]? = some lparen ∧ t[close]? = some rparen := by
  unfold parameters? at h
  split at h
  · next r =>
    obtain ⟨close, hclose, heq⟩ := Option.map_eq_some_iff.mp h
    obtain ⟨rfl, rfl⟩ := Prod.mk.inj heq
    have hat := Source.closing?_spec hclose
    refine .inr ⟨close, rfl, ?_, by omega, rfl, hat⟩
    rcases close with - | close
    · exact absurd (Option.some.inj hat) (by decide)
    · omega
  · obtain ⟨rfl, rfl⟩ := Prod.mk.inj (Option.some.inj h)
    exact .inl ⟨rfl, rfl⟩

/-- A result type is nothing, or it stands between a colon and a semicolon. -/
theorem result?_spec {t : Text} {returnType : Option Text} {n : Nat}
    (h : result? t = some (returnType, n)) :
    (returnType = none ∧ n = 0) ∨ 0 < n ∧ t[0]? = some colon ∧ t[n]? = some semicolon ∧
      returnType = some (Text.squeeze (Text.slice t 1 n)) := by
  unfold result? at h
  split at h
  · next r =>
    simp only [Option.bind_eq_bind, Option.bind_eq_some_iff] at h
    obtain ⟨k, hk, h⟩ := h
    split at h
    · cases h
    · obtain ⟨rfl, rfl⟩ := Prod.mk.inj (Option.some.inj h)
      refine .inr ⟨by omega, rfl, ?_, by simp [Text.slice]⟩
      rw [List.getElem?_cons_succ]
      exact Text.getElem?_of_find? hk
  · obtain ⟨rfl, rfl⟩ := Prod.mk.inj (Option.some.inj h)
    exact .inl ⟨rfl, rfl⟩

/-! ### Headers that lie in a text -/

/-- The header lies in the text `m`: its offsets come in order, and the bytes that delimit its
parts stand at them. -/
structure Located (m : Text) (h : Header) : Prop where
  start_le : h.start ≤ h.keywordStart
  keyword_lt : h.keywordStart < h.stop
  stop_le : h.stop ≤ h.directivesEnd
  end_le : h.directivesEnd ≤ m.length
  stop_at : m[h.stop - 1]? = some semicolon
  end_at : h.directivesEnd = m.length ∨ m[h.directivesEnd - 1]? = some semicolon
  params_at : ∀ {s e}, h.params = some (s, e) → h.keywordStart < s ∧ s ≤ e ∧ e < h.stop ∧
    m[s - 1]? = some lparen ∧ m[e]? = some rparen
  result_at : ∀ {ty}, h.returnType = some ty → ∃ s e, h.keywordStart < s ∧ s ≤ e ∧ e < h.stop ∧
    m[s - 1]? = some colon ∧ m[e]? = some semicolon ∧ ty = Text.squeeze (Text.slice m s e)

theorem ofCandidate?_located {m : Text} {i : Nat} (hi : i ≤ m.length) {cand : Candidate}
    {h : Header} (hh : ofCandidate? (Cursor.ofOffset m i) cand = some h) :
    h.start = i ∧ h.keywordStart = i + cand.lead ∧ Located m h := by
  obtain ⟨-, params, n₁, returnType, n₂, r, kind, hparams, hresult, hr, -, rfl⟩ :=
    ofCandidate?_eq_some_iff.mp hh
  have hlead : cand.lead ≤ toParams (Cursor.ofOffset m i) cand := by
    simp only [toParams, Candidate.size]
    omega
  generalize hto : toParams (Cursor.ofOffset m i) cand = d at hparams hresult hr hlead
  simp only [Cursor.after_ofOffset, List.drop_drop] at hparams hresult hr
  have hoff := Cursor.offset_ofOffset hi
  -- the semicolon and what stands behind it
  have hsemi : m[i + (d + n₁ + n₂)]? = some semicolon := by
    rw [← List.head?_drop, hr]
    rfl
  have hrest : r = m.drop (i + (d + n₁ + n₂) + 1) := by
    rw [← List.drop_drop, hr]
    rfl
  have hstop := Text.lt_length_of_getElem? hsemi
  refine ⟨hoff, by simp only [ofParts, hoff], ?_⟩
  constructor
  · simp only [ofParts, hoff]
    omega
  · simp only [ofParts, hoff, hto]
    omega
  · simp only [ofParts]
    omega
  · simp only [ofParts, hoff, hto]
    rcases directives_spec r with h | h | ⟨k, h, hk⟩
    · omega
    · rw [h, hrest, List.length_drop]
      omega
    · have := Text.lt_length_of_getElem? hk
      rw [hrest, List.length_drop] at this
      omega
  · simpa only [ofParts, hoff, hto, Nat.add_sub_cancel] using hsemi
  · simp only [ofParts, hoff, hto]
    rcases directives_spec r with h | h | ⟨k, h, hk⟩
    · rw [h]
      exact .inr hsemi
    · rw [h, hrest, List.length_drop]
      exact .inl (by omega)
    · rw [hrest, List.getElem?_drop] at hk
      rw [h]
      exact .inr hk
  · intro s e heq
    simp only [ofParts, hoff, hto] at heq ⊢
    obtain ⟨⟨s', e'⟩, rfl, hse⟩ := Option.map_eq_some_iff.mp heq
    obtain ⟨rfl, rfl⟩ := Prod.mk.inj hse
    rcases parameters?_spec hparams with ⟨h, -⟩ | ⟨close, h, hpos, hlt, hopen, hclose⟩
    · cases h
    · obtain ⟨rfl, rfl⟩ := Prod.mk.inj (Option.some.inj h)
      rw [List.getElem?_drop] at hopen hclose
      exact ⟨by omega, by omega, by omega, hopen, hclose⟩
  · intro ty heq
    simp only [ofParts, hoff, hto] at heq ⊢
    rcases result?_spec hresult with ⟨h, -⟩ | ⟨hpos, hcolon, hsem, h⟩
    · rw [h] at heq
      cases heq
    · rw [h, Option.some.injEq] at heq
      rw [List.getElem?_drop] at hcolon hsem
      refine ⟨i + (d + n₁) + 1, i + (d + n₁) + n₂, by omega, by omega, by omega, hcolon, hsem, ?_⟩
      rw [← heq, Text.slice, Text.slice, List.drop_drop]
      congr 2
      omega

/-- A header, a leading `class` included, can be read at the offset `i` of the text `m`. -/
def StartsAt (m : Text) (i : Nat) (h : Header) : Prop :=
  ∃ cand, candidate? (Cursor.ofOffset m i) = some cand ∧
    ofCandidate? (Cursor.ofOffset m i) cand = some h

/-- The search from an offset decides at its candidate or goes on behind it. -/
theorem find?_eq (m : Text) (p : Nat) :
    find? m p =
      if p < m.length then
        match candidate? (Cursor.ofOffset m p) with
        | none => find? m (p + 1)
        | some c => ofCandidate? (Cursor.ofOffset m p) c <|> find? m (p + max 1 c.size)
      else none := by
  -- behind the end nothing is found either way
  have hfrom {q : Nat} (hq : p ≤ m.length) :
      findFrom? ((Cursor.ofOffset m p).advance q) = find? m (p + q) := by
    rw [Cursor.advance_ofOffset hq, find?]
    split
    · rfl
    · next hlt => rw [findFrom?, if_pos (by simpa [Cursor.atEnd] using hlt)]
  conv => lhs; unfold find?
  split
  · next hp =>
    rw [findFrom?, if_neg (by simpa [Cursor.atEnd] using hp)]
    cases candidate? (Cursor.ofOffset m p) with
    | none => exact hfrom (Nat.le_of_lt hp)
    | some c => simp only [hfrom (Nat.le_of_lt hp)]
  · rfl

/-- The search gives a header that starts at or behind the offset from which it starts. -/
theorem find?_startsAt {m : Text} {p : Nat} {h : Header} (hh : find? m p = some h) :
    p ≤ h.start ∧ h.start < m.length ∧ StartsAt m h.start h := by
  induction hlen : m.length - p using Nat.strongRecOn generalizing p with
  | ind n ih =>
    subst hlen
    rw [find?_eq] at hh
    split at hh
    case isFalse => cases hh
    case isTrue hp =>
      rcases hcand : candidate? (Cursor.ofOffset m p) with - | c
      · rw [hcand] at hh
        have := ih _ (by omega) hh rfl
        exact ⟨by omega, this.2⟩
      · rw [hcand] at hh
        replace hh : (ofCandidate? (Cursor.ofOffset m p) c <|> find? m (p + max 1 c.size)) =
          some h := hh
        rcases hof : ofCandidate? (Cursor.ofOffset m p) c with - | h'
        · -- a candidate that is no header is passed over
          rw [hof] at hh
          have := ih _ (by omega) hh rfl
          exact ⟨by omega, this.2⟩
        · rw [hof] at hh
          cases hh
          obtain ⟨hstart, -⟩ := ofCandidate?_located (Nat.le_of_lt hp) hof
          rw [hstart]
          exact ⟨Nat.le_refl p, hp, c, hcand, hof⟩

theorem StartsAt.located {m : Text} {i : Nat} {h : Header} (hi : i ≤ m.length)
    (hh : StartsAt m i h) : h.start = i ∧ Located m h := by
  obtain ⟨cand, -, hof⟩ := hh
  obtain ⟨hstart, -, hloc⟩ := ofCandidate?_located hi hof
  exact ⟨hstart, hloc⟩

theorem find?_located {m : Text} {p : Nat} {h : Header} (hh : find? m p = some h) :
    p ≤ h.start ∧ Located m h := by
  obtain ⟨hp, hlt, hat⟩ := find?_startsAt hh
  exact ⟨hp, (hat.located (Nat.le_of_lt hlt)).2⟩

/-- A candidate without a leading `class` begins with its keyword, and blanks follow. -/
theorem bare?_spec {t : Text} {cand : Candidate} (h : bare? t = some cand) :
    cand.lead = 0 ∧ keyword? t = some cand.keyword ∧ Text.blankRun (t.drop cand.keyword) ≠ 0 := by
  obtain ⟨k, hk, h⟩ := Option.bind_eq_some_iff.mp h
  dsimp only at h
  split at h
  · cases h
  · next hgap =>
    obtain ⟨n, -, h⟩ := Option.bind_eq_some_iff.mp h
    cases h
    exact ⟨rfl, hk, hgap⟩

/-- A header that is read at its keyword has no leading `class`. -/
theorem atPlace?_located {m : Text} {i : Nat} (hi : i ≤ m.length) {h : Header}
    (hh : atPlace? (Cursor.ofOffset m i) = some h) :
    h.start = i ∧ h.keywordStart = i ∧ h.isClassMethod = false ∧ Located m h := by
  unfold atPlace? at hh
  split at hh
  · cases hh
  · obtain ⟨cand, hcand, hof⟩ := Option.bind_eq_some_iff.mp hh
    have hlead := (bare?_spec hcand).1
    obtain ⟨hstart, hkey, hloc⟩ := ofCandidate?_located hi hof
    obtain ⟨-, params, n₁, returnType, n₂, r, kind, -, -, -, -, rfl⟩ :=
      ofCandidate?_eq_some_iff.mp hof
    exact ⟨hstart, by rw [hkey, hlead, Nat.add_zero], by simp [ofParts, hlead], hloc⟩

/-! ### Headers of an overlay -/

/-- A header of the overlay ends outside. -/
theorem Located.outside_stop {t : Text} {h : Header} (hl : h.Located (Source.overlay t)) :
    Source.Outside t h.stop := by
  have := Source.outside_succ_of_overlay hl.stop_at (by decide)
  rwa [Nat.sub_add_cancel (by have := hl.keyword_lt; omega)] at this

theorem Located.outside_directivesEnd {t : Text} {h : Header}
    (hl : h.Located (Source.overlay t)) : Source.Outside t h.directivesEnd := by
  rcases hl.end_at with heq | hsemi
  · rw [heq, Source.length_mask]
    exact Source.outside_length t
  · have := Source.outside_succ_of_overlay hsemi (by decide)
    rwa [Nat.sub_add_cancel (by have := hl.keyword_lt; have := hl.stop_le; omega)] at this

end Routine.Header
end PascalSurvey
