/-
PascalSurvey/Proofs/Routine/Search.lean

What the search for headers finds, against reading a header at its keyword.

A header that the search finds can be read at its keyword as well, and all that is lost there is
the `class` in front (`parseAt?_keywordStart`).  The word `class` and the blanks behind it neither
continue a word nor forbid a header, so nothing else depends on where the reading begins.

The other way round a header can be missed.  The search goes from place to place (`Visits`) and
passes over a candidate that is no header as a whole, its name included.  A keyword in such a
candidate is passed over (`PassedOver`), and `find?_reaches` says that this is the only way to miss
one.  Behind a semicolon it cannot happen, because no candidate reaches over a semicolon.
-/
import PascalSurvey.Proofs.Routine.Opening
import PascalSurvey.Proofs.Text.Fold
import PascalSurvey.Proofs.Text.Spelling
import PascalSurvey.Proofs.Text.Word

namespace PascalSurvey

open Ascii

namespace Routine.Header

variable {m : Text} {p q k : Nat} {h : Header}

/-! ### The word `class` -/

theorem isBlank_of_gap {b : UInt8} (h : (b == space || b == tab) = true) : isBlank b = true := by
  simp only [Bool.or_eq_true, beq_iff_eq] at h
  rcases h with rfl | rfl <;> decide

/-- The word `class` and the blanks behind it. -/
theorem classWord?_eq_some {t : Text} {lead : Nat} (h : classWord? t = some lead) :
    ∃ n gap, Text.matchFold? "class" t = some n ∧ 0 < gap ∧ lead = n + gap ∧
      ∀ i, n ≤ i → i < lead → ∃ b, t[i]? = some b ∧ isBlank b = true := by
  obtain ⟨n, hn, h⟩ := Option.bind_eq_some_iff.mp h
  dsimp only at h
  split at h
  · cases h
  · next hgap =>
    refine ⟨n, _, hn, Nat.pos_of_ne_zero hgap, (Option.some.inj h).symm, fun i hi hlt => ?_⟩
    obtain ⟨j, rfl⟩ := Nat.exists_eq_add_of_le hi
    obtain ⟨b, hb, hblank⟩ := Text.getElem?_of_lt_takeWhile
      (p := fun b => b == space || b == tab) (t := t.drop n) (j := j)
      (by rw [← Option.some.inj h] at hlt; omega)
    rw [List.getElem?_drop] at hb
    exact ⟨b, hb, isBlank_of_gap hblank⟩

/-- Behind a word that ends in `s` a header may start. -/
theorem mayStartAfter_of_last {blanks r : Text} {b : UInt8} (hblanks : ∀ c ∈ blanks, isBlank c = true)
    (hb : lower b = 0x73 ∨ 0x80 ≤ b) : mayStartAfter (blanks ++ b :: r) = true := by
  have hne {c : UInt8} (hc : c < 0x80) (hlow : lower c ≠ 0x73) : b ≠ c := by
    rintro rfl
    rcases hb with hb | hb
    · exact hlow hb
    · exact absurd hc (UInt8.not_lt.mpr hb)
  have hink : isBlank b = false := by
    cases hblank : isBlank b with
    | false => rfl
    | true =>
      simp only [isBlank, Bool.or_eq_true, beq_iff_eq] at hblank
      rcases hblank with (((h | h) | h) | h) | h <;> exact absurd h (hne (by decide) (by decide))
  have hdrop : (blanks ++ b :: r).dropWhile isBlank = b :: r := by
    rw [List.dropWhile_append_of_pos hblanks, List.dropWhile_cons_of_neg (by simp [hink])]
  unfold mayStartAfter
  rw [hdrop]
  have hsign : (b == equals || b == colon || b == dot || b == ampersand || b == lparen ||
      b == comma) = false := by
    simp only [Bool.or_eq_false_iff, beq_eq_false_iff_ne, ne_eq]
    exact ⟨⟨⟨⟨⟨hne (by decide) (by decide), hne (by decide) (by decide)⟩,
      hne (by decide) (by decide)⟩, hne (by decide) (by decide)⟩, hne (by decide) (by decide)⟩,
      hne (by decide) (by decide)⟩
  simp only [hsign, Bool.false_eq_true, if_false]
  split
  · next hid =>
    -- the word before is not `to`, which ends in another letter
    rw [List.takeWhile_cons_of_pos hid, Bool.not_eq_true', Bool.eq_false_iff]
    intro heq
    rw [Text.eqFold_iff, List.reverse_cons, Text.toLower, List.map_append] at heq
    have hlast := congrArg List.getLast? heq
    rw [List.map_singleton, List.getLast?_concat] at hlast
    rcases hb with hb | hb
    · rw [hb] at hlast
      exact absurd hlast (by decide)
    · exact absurd (isIdentByte_lt hid) (UInt8.not_lt.mpr hb)
  · rfl


/-- Right behind `class` and its blanks a word may begin, and a header may start there. -/
theorem classWord?_before {t : Text} {lead : Nat} (h : classWord? t = some lead) (before : Text) :
    Text.endsWord ((t.take lead).reverse ++ before) = false ∧
      mayStartAfter ((t.take lead).reverse ++ before) = true := by
  obtain ⟨n, gap, hn, hpos, rfl, hblank⟩ := classWord?_eq_some h
  have hn : Text.matchFold? (("clas" : Text) ++ [0x73]) t = some n := hn
  obtain ⟨k, b, rfl, hk, hb⟩ := Text.matchFold?_last hn
  -- the text up to the keyword is a beginning of `class`, its last byte and blanks
  have hsplit : t.take (k + 1 + gap) = t.take k ++ b :: (t.drop (k + 1)).take gap := by
    rw [List.take_add, List.take_add, Text.drop_of_getElem? hk, List.append_assoc]
    rfl
  have hgap : ∀ c ∈ ((t.drop (k + 1)).take gap).reverse, isBlank c = true := by
    intro c hc
    obtain ⟨j, hj⟩ := List.mem_iff_getElem?.mp (List.mem_reverse.mp hc)
    have hlt := Text.lt_length_of_getElem? hj
    rw [List.length_take] at hlt
    rw [List.getElem?_take_of_lt (by omega), List.getElem?_drop] at hj
    obtain ⟨c', hc', hisBlank⟩ := hblank (k + 1 + j) (by omega) (by omega)
    rw [hj] at hc'
    exact Option.some.inj hc' ▸ hisBlank
  have hne : ((t.drop (k + 1)).take gap).reverse ≠ [] := by
    obtain ⟨c, hc, -⟩ := hblank (k + 1) (Nat.le_refl _) (by omega)
    rw [Text.drop_of_getElem? hc, ← List.length_pos_iff, List.length_reverse, List.length_take,
      List.length_cons]
    omega
  rw [hsplit, List.reverse_append, List.reverse_cons, List.append_assoc, List.append_assoc]
  generalize ((t.drop (k + 1)).take gap).reverse = blanks at hgap hne
  refine ⟨?_, mayStartAfter_of_last hgap hb⟩
  obtain ⟨c, blanks, rfl⟩ := List.exists_cons_of_ne_nil hne
  exact Text.endsWord_separator (isSeparator_of_isBlank (hgap c List.mem_cons_self)) [] _

/-- A candidate begins with its keyword, or with `class`. -/
theorem words?_cases {t : Text} {c : Candidate} (h : words? t = some c) :
    bare? t = some c ∨ ∃ lead c', classWord? t = some lead ∧ bare? (t.drop lead) = some c' ∧
      c = { c' with lead } := by
  rw [words?, Option.orElse_eq_orElse, Option.orElse_eq_or, Option.or_eq_some_iff] at h
  rcases h with h | ⟨-, h⟩
  · obtain ⟨lead, hlead, h⟩ := Option.bind_eq_some_iff.mp h
    obtain ⟨c', hbare, h⟩ := Option.bind_eq_some_iff.mp h
    exact .inr ⟨lead, c', hlead, hbare, (Option.some.inj h).symm⟩
  · exact .inl h

/-- No routine keyword begins as `class` does. -/
theorem classWord?_of_keyword? {t : Text} {n : Nat} (h : keyword? t = some n) :
    classWord? t = none := by
  obtain ⟨kind, -, hkind⟩ := List.exists_of_findSome?_eq_some h
  have hclass : Text.matchFold? "class" t = none := by
    rw [← Option.not_isSome_iff_eq_none, Option.isSome_iff_exists]
    rintro ⟨n', hclass⟩
    obtain ⟨b, r, n', rfl, hb, hr⟩ := Text.matchFold?_letter hclass (by decide) (by decide)
    obtain ⟨c, r, n', rfl, hc, -⟩ := Text.matchFold?_letter hr (by decide) (by decide)
    cases kind with
    | procedure | function | destructor =>
      obtain ⟨b', r', n', heq, hb', -⟩ := Text.matchFold?_letter hkind (by decide) (by decide)
      obtain ⟨rfl, -⟩ := List.cons.inj heq
      rw [hb] at hb'
      exact absurd hb' (by decide)
    | constructor =>
      -- the second letters differ
      obtain ⟨b', r', n', heq, -, hr'⟩ := Text.matchFold?_letter hkind (by decide) (by decide)
      obtain ⟨rfl, rfl⟩ := List.cons.inj heq
      obtain ⟨c', r', n', heq, hc', -⟩ := Text.matchFold?_letter hr' (by decide) (by decide)
      obtain ⟨rfl, -⟩ := List.cons.inj heq
      rw [hc] at hc'
      exact absurd hc' (by decide)
  rw [classWord?, hclass]
  rfl

/-! ### Reading a header at its keyword -/

theorem parseAt?_eq_some_iff : parseAt? m k = some h ↔
    k ≤ m.length ∧ Text.endsWord (m.take k).reverse = false ∧
      ∃ c, bare? (m.drop k) = some c ∧ ofCandidate? (Cursor.ofOffset m k) c = some h := by
  rw [parseAt?, atPlace?, Cursor.before_ofOffset, Cursor.after_ofOffset]
  split
  · next hk =>
    split
    · next hword => simp [hword]
    · next hword => simp [hk, hword, Option.bind_eq_some_iff]
  · next hk => simp [hk]

/-- The parts of a header behind `class` are read at the keyword as well. -/
theorem ofCandidate?_behind {o lead : Nat} {before before' t : Text} {c : Candidate}
    (hc : c.lead = 0) (hstart : mayStartAfter before' = true)
    (hh : ofCandidate? ⟨o, before, t⟩ { c with lead } = some h) :
    ofCandidate? ⟨o + lead, before', t.drop lead⟩ c =
      some { h with start := h.keywordStart, isClassMethod := false } := by
  obtain ⟨-, params, n₁, returnType, n₂, r, kind, hparams, hresult, hr, hkind, rfl⟩ :=
    ofCandidate?_eq_some_iff.mp hh
  have hsize : Candidate.size { c with lead } = lead + c.size := by
    simp only [Candidate.size]
    omega
  have hto : toParams ⟨o, before, t⟩ { c with lead } =
      lead + toParams ⟨o + lead, before', t.drop lead⟩ c := by
    simp only [toParams, hsize, List.drop_drop]
    omega
  refine ofCandidate?_eq_some_iff.mpr
    ⟨hstart, params, n₁, returnType, n₂, r, kind, ?_, ?_, ?_, ?_, ?_⟩
  · rwa [List.drop_drop, ← hto]
  · rwa [List.drop_drop, ← Nat.add_assoc, ← hto]
  · rwa [List.drop_drop, ← Nat.add_assoc, ← Nat.add_assoc, ← hto]
  · rwa [hc, List.drop_zero]
  · simp only [ofParts, hto, hc, List.drop_drop, Nat.add_assoc, Nat.zero_add, Nat.add_zero]
    rfl

/-- A header without a leading `class` is what is read at its keyword. -/
theorem eq_of_unled (hk : h.keywordStart = h.start) (hc : h.isClassMethod = false) :
    { h with start := h.keywordStart, isClassMethod := false } = h := by
  obtain ⟨start, keywordStart, stop, kind, isClassMethod, _⟩ := h
  obtain rfl : keywordStart = start := hk
  obtain rfl : isClassMethod = false := hc
  rfl

/-- A header that the search finds can be read at its keyword, with all its parts but the `class` in
front. -/
theorem parseAt?_of_find? (hh : find? m p = some h) :
    parseAt? m h.keywordStart =
      some { h with start := h.keywordStart, isClassMethod := false } := by
  obtain ⟨-, hlt, c, hcand, hof⟩ := find?_startsAt hh
  obtain ⟨-, hkeyword, hloc⟩ := ofCandidate?_located (Nat.le_of_lt hlt) hof
  have hle : h.keywordStart ≤ m.length :=
    Nat.le_trans (Nat.le_of_lt hloc.keyword_lt) (Nat.le_trans hloc.stop_le hloc.end_le)
  unfold candidate? at hcand
  split at hcand
  case isTrue => cases hcand
  case isFalse hword =>
  rw [Cursor.before_ofOffset] at hword
  rw [Cursor.after_ofOffset] at hcand
  refine parseAt?_eq_some_iff.mpr ⟨hle, ?_⟩
  rcases words?_cases hcand with hbare | ⟨lead, c, hlead, hbare, rfl⟩
  · -- without `class` it is the same reading
    have hzero := (bare?_spec hbare).1
    rw [hzero, Nat.add_zero] at hkeyword
    obtain ⟨-, params, n₁, returnType, n₂, r, kind, -, -, -, -, heq⟩ :=
      ofCandidate?_eq_some_iff.mp hof
    have hclass : h.isClassMethod = false :=
      (congrArg Header.isClassMethod heq).trans (by simp [ofParts, hzero])
    rw [eq_of_unled hkeyword hclass, hkeyword]
    exact ⟨by simpa using hword, c, hbare, hof⟩
  · have htake : (m.take h.keywordStart).reverse =
        ((m.drop h.start).take lead).reverse ++ (m.take h.start).reverse := by
      rw [hkeyword, List.take_add, List.reverse_append]
    obtain ⟨hends, hstart⟩ := classWord?_before hlead (m.take h.start).reverse
    rw [htake]
    refine ⟨hends, c, by rwa [hkeyword, ← List.drop_drop], ?_⟩
    rw [Cursor.ofOffset_of_le (Nat.le_of_lt hlt)] at hof
    rw [Cursor.ofOffset_of_le hle, htake]
    have := ofCandidate?_behind (bare?_spec hbare).1 hstart hof
    rwa [List.drop_drop, ← hkeyword] at this

/-- **Main.**  A header that the search finds can be read at its keyword, with all its parts.  Only
the `class` in front is lost: the reading starts at the keyword and never sees a class method.  So a
walk that comes to the keyword halts at a qualified header, at one inside a block and at one of a
constructor or destructor, whether `class` stands in front or not. -/
theorem parseAt?_keywordStart (hh : find? m p = some h) :
    parseAt? m h.keywordStart =
        some { h with start := h.keywordStart, isClassMethod := false } ∧
      ∀ s : Body.State, (∃ r, Body.moveAt m h.keywordStart s = .halt r) ↔
        h.isQualified = true ∨ 0 < s.depth ∨ Body.nestable h.kind = false := by
  have hparse := parseAt?_of_find? hh
  refine ⟨hparse, fun s => ?_⟩
  obtain ⟨hword, hheader⟩ := headerAt_parseAt? hparse
  rw [Body.moveAt, hword, hheader]
  simp only [Body.afterWord]
  split
  · next hcut =>
    simp only [Bool.false_or, Bool.or_eq_true, decide_eq_true_eq, Bool.not_eq_true', or_assoc] at hcut
    exact ⟨fun _ => hcut, fun _ => ⟨_, rfl⟩⟩
  · next hcut =>
    simp only [Bool.false_or, Bool.or_eq_true, decide_eq_true_eq, Bool.not_eq_true', or_assoc] at hcut
    constructor
    · rintro ⟨r, hr⟩
      split at hr <;> cases hr
    · exact fun h => absurd h hcut

/-- A class method with a parameter list, a result type and a directive. -/
def classFunction : Text := "class function TFoo.Size(A: Integer): Integer; overload;"

/-- Its header. -/
def classFunctionHeader : Header where
  start := 0
  keywordStart := 6
  stop := 46
  kind := .function
  isClassMethod := true
  className := some "TFoo"
  name := "Size"
  params := some (25, 35)
  returnType := some "Integer"
  declarationOnly := false
  directivesEnd := 56

/-- The header is found at its `class` and read again at its keyword. -/
theorem parseAt?_classFunction :
    find? classFunction 0 = some classFunctionHeader ∧
      parseAt? classFunction 6 =
        some { classFunctionHeader with start := 6, isClassMethod := false } := by
  have hfind : find? classFunction 0 = some classFunctionHeader := by decide +kernel
  exact ⟨hfind, (parseAt?_keywordStart hfind).1⟩

/-- A class routine without a class name, before the block of another routine. -/
def classRoutine : Text := "var x: Integer; class procedure Reset; begin end; begin end;"

/-- The search takes the class routine for one, and reading at its keyword does not.  So the walk
takes it for a nested routine and goes on behind it. -/
theorem parseAt?_classRoutine :
    (find? classRoutine 0).map (fun h => (h.start, h.keywordStart, h.isClassMethod)) =
        some (16, 22, true) ∧
      (parseAt? classRoutine 22).map (fun h => h.isClassMethod) = some false ∧
      Body.scan classRoutine (Source.overlay classRoutine) 0 classRoutine.length =
        ⟨60, true, true⟩ := by
  decide +kernel

/-! ### Places inside a candidate -/

/-- No keyword begins at the offset `i` of the text `t` behind `before`: a word character has just
ended there, or no letter stands there. -/
def Inner (before t : Text) (i : Nat) : Prop :=
  Text.endsWord ((t.take i).reverse ++ before) = true ∨ (t[i]?).any isLetter = false

theorem inner_of_matchFold? {word t : Text} {n i : Nat} (h : Text.matchFold? word t = some n)
    (hword : ∀ w ∈ word, isLower w = true) (hpos : 0 < i) (hle : i ≤ n) (before : Text) :
    Inner before t i := by
  rcases Text.within_matchFold? h hword hpos hle before with ⟨b, hb, hge⟩ | h
  · right
    rw [hb, Option.any_some, Bool.eq_false_iff]
    intro hletter
    have hid : isIdentByte b = true := by simp [isIdentByte, hletter]
    exact absurd (isIdentByte_lt hid) (UInt8.not_lt.mpr hge)
  · exact .inl h

theorem bare?_gap {t : Text} {c : Candidate} (h : bare? t = some c) :
    c.gap = Text.blankRun (t.drop c.keyword) ∧ 0 < c.gap := by
  obtain ⟨n, -, h⟩ := Option.bind_eq_some_iff.mp h
  dsimp only at h
  split at h
  · cases h
  · next hne =>
    obtain ⟨name, -, h⟩ := Option.bind_eq_some_iff.mp h
    cases h
    exact ⟨rfl, Nat.pos_of_ne_zero hne⟩

/-- No keyword begins in the keyword of a candidate or in the blanks behind it. -/
theorem inner_of_bare? {t : Text} {c : Candidate} {i : Nat} (h : bare? t = some c) (hpos : 0 < i)
    (hlt : i < c.keyword + c.gap) (before : Text) : Inner before t i := by
  obtain ⟨kind, -, hkind⟩ := List.exists_of_findSome?_eq_some (bare?_spec h).2.1
  rw [(bare?_gap h).1] at hlt
  rcases Nat.lt_or_ge c.keyword i with hgt | hle
  · -- a blank stands there
    right
    obtain ⟨j, rfl⟩ := Nat.exists_eq_add_of_lt hgt
    rcases hb : t[c.keyword + j + 1]? with - | b
    · rfl
    · rw [Option.any_some, Bool.eq_false_iff]
      intro hletter
      have hid : isIdentByte b = true := by simp [isIdentByte, hletter]
      have hmem : b ∈ (t.drop c.keyword).take (Text.blankRun (t.drop c.keyword)) := by
        refine List.mem_iff_getElem?.mpr ⟨j + 1, ?_⟩
        rw [List.getElem?_take_of_lt (by omega), List.getElem?_drop, ← Nat.add_assoc, hb]
      rcases Utf8.mem_take_run hmem with hge | hblank
      · exact absurd (isIdentByte_lt hid) (UInt8.not_lt.mpr hge)
      · rw [not_isBlankChar_of_isIdentByte hid] at hblank
        cases hblank
  · exact inner_of_matchFold? hkind (isLower_of_mem_keyword kind) hpos hle before

/-- No keyword begins in `class` or in the blanks behind it. -/
theorem inner_of_classWord? {t : Text} {lead i : Nat} (h : classWord? t = some lead) (hpos : 0 < i)
    (hlt : i < lead) (before : Text) : Inner before t i := by
  obtain ⟨n, gap, hn, -, rfl, hblank⟩ := classWord?_eq_some h
  rcases Nat.lt_or_ge i n with hi | hi
  · exact inner_of_matchFold? hn isLower_of_mem_class hpos (Nat.le_of_lt hi) before
  · right
    obtain ⟨b, hb, hisBlank⟩ := hblank i hi hlt
    rw [hb, Option.any_some, Bool.eq_false_iff]
    intro hletter
    have hid := not_isIdentByte_of_isBlank hisBlank
    simp [isIdentByte, hletter] at hid

/-- A header is read at no such place. -/
theorem not_inner (hh : parseAt? m k = some h) (i : Nat) (hk : k = q + i) :
    ¬Inner (m.take q).reverse (m.drop q) i := by
  obtain ⟨-, hword, c, hbare, -⟩ := parseAt?_eq_some_iff.mp hh
  rintro (hin | hin)
  · rw [← List.reverse_append, ← List.take_add, ← hk, hword] at hin
    cases hin
  · have := (bare?_head hbare).2
    rw [List.getElem?_drop, Nat.add_zero] at this
    rw [List.getElem?_drop, ← hk, this] at hin
    cases hin

theorem candidate?_eq_some_iff {c : Candidate} : candidate? (Cursor.ofOffset m q) = some c ↔
    Text.endsWord (m.take q).reverse = false ∧ words? (m.drop q) = some c := by
  rw [candidate?, Cursor.before_ofOffset, Cursor.after_ofOffset]
  split
  · next hword => simp [hword]
  · next hword => simp [hword]

/-- Blanks stand behind the keyword of a candidate. -/
theorem gap_pos {c : Candidate} (hc : candidate? (Cursor.ofOffset m q) = some c) : 0 < c.gap := by
  rcases words?_cases (candidate?_eq_some_iff.mp hc).2 with h | ⟨lead, c, -, h, rfl⟩
  · exact (bare?_gap h).2
  · exact (bare?_gap h).2

/-- A header that is read inside a candidate is read at the keyword behind its `class`, or in its
name. -/
theorem parseAt?_inside {c : Candidate} (hc : candidate? (Cursor.ofOffset m q) = some c)
    (hh : parseAt? m k = some h) (hq : q < k) :
    0 < c.lead ∧ k = q + c.lead ∨ q + c.lead + c.keyword + c.gap ≤ k := by
  obtain ⟨i, rfl⟩ := Nat.exists_eq_add_of_lt hq
  rw [Nat.add_assoc] at hh ⊢
  have hout := not_inner hh (i + 1) rfl
  rcases words?_cases (candidate?_eq_some_iff.mp hc).2 with hbare | ⟨lead, c, hlead, hbare, rfl⟩
  · right
    rw [(bare?_spec hbare).1]
    rcases Nat.lt_or_ge (i + 1) (c.keyword + c.gap) with hlt | hge
    · exact absurd (inner_of_bare? hbare (Nat.succ_pos i) hlt _) hout
    · omega
  · simp only
    rcases Nat.lt_trichotomy (i + 1) lead with hlt | heq | hgt
    · exact absurd (inner_of_classWord? hlead (Nat.succ_pos i) hlt _) hout
    · exact .inl ⟨by omega, by omega⟩
    · right
      obtain ⟨j, hj⟩ := Nat.exists_eq_add_of_lt hgt
      have hout := not_inner (q := q + lead) hh (j + 1) (by omega)
      rw [← List.drop_drop] at hout
      rcases Nat.lt_or_ge (j + 1) (c.keyword + c.gap) with hlt | hge
      · exact absurd (inner_of_bare? hbare (Nat.succ_pos j) hlt _) hout
      · omega

/-! ### Searching -/

/-- The places to which the search from `p` comes. -/
inductive Visits (m : Text) (p : Nat) : Nat → Prop
  | start : Visits m p p
  /-- Without a candidate the search goes on at the next byte. -/
  | next {q : Nat} (hq : Visits m p q) (hnone : candidate? (Cursor.ofOffset m q) = none) :
      Visits m p (q + 1)
  /-- A candidate that is no header is passed over whole. -/
  | skip {q : Nat} {c : Candidate} (hq : Visits m p q)
      (hc : candidate? (Cursor.ofOffset m q) = some c)
      (hnone : ofCandidate? (Cursor.ofOffset m q) c = none) : Visits m p (q + max 1 c.size)

/-- The search from `p` passes over the keyword at `k`: the keyword belongs to a candidate that is
no header, either behind its `class` or in its name. -/
def PassedOver (m : Text) (p k : Nat) : Prop :=
  ∃ q c, Visits m p q ∧ candidate? (Cursor.ofOffset m q) = some c ∧
    ofCandidate? (Cursor.ofOffset m q) c = none ∧
    (0 < c.lead ∧ k = q + c.lead ∨ q + c.lead + c.keyword + c.gap ≤ k ∧ k < q + c.size)

/-- The search finds the same from each place to which it comes. -/
theorem Visits.find?_eq (hv : Visits m p q) : find? m p = find? m q := by
  have hend {q : Nat} (hq : ¬q < m.length) : find? m q = none := by
    rw [Header.find?_eq, if_neg hq]
  induction hv with
  | start => rfl
  | @next q _ hnone ih =>
    rw [ih]
    rcases Nat.lt_or_ge q m.length with hq | hq
    · rw [Header.find?_eq, if_pos hq, hnone]
    · rw [hend (by omega), hend (by omega)]
  | @skip q c _ hc hnone ih =>
    rw [ih]
    rcases Nat.lt_or_ge q m.length with hq | hq
    · rw [Header.find?_eq, if_pos hq, hc]
      simp only [hnone]
      rfl
    · rw [hend (by omega), hend (by omega)]

/-- At the keyword of a header the search finds it. -/
theorem find?_at_keyword (hh : parseAt? m k = some h) : find? m k = some h := by
  obtain ⟨hle, hword, c, hbare, hof⟩ := parseAt?_eq_some_iff.mp hh
  have hlt : k < m.length := by
    obtain ⟨b, hb, -⟩ := (Option.any_eq_true _ _).mp (bare?_head hbare).2
    rw [List.getElem?_drop, Nat.add_zero] at hb
    exact Text.lt_length_of_getElem? hb
  have hwords : words? (m.drop k) = some c := by
    rw [words?, classWord?_of_keyword? (bare?_spec hbare).2.1, hbare]
    rfl
  rw [find?_eq, if_pos hlt, candidate?_eq_some_iff.mpr ⟨hword, hwords⟩]
  simp only [hof]
  rfl

/-- The search that starts before the keyword of a header finds it, or an earlier one, unless it
passes over it. -/
theorem find?_of_not_passedOver (hh : parseAt? m k = some h) (hv : Visits m p q) (hq : q ≤ k)
    (hover : ¬PassedOver m p k) : ∃ h', find? m q = some h' ∧ h'.keywordStart ≤ k := by
  induction hlen : k - q using Nat.strongRecOn generalizing q with
  | ind n ih =>
    subst hlen
    have hle : k ≤ m.length := (parseAt?_eq_some_iff.mp hh).1
    rcases Nat.eq_or_lt_of_le hq with rfl | hlt
    · have hfind := find?_at_keyword hh
      obtain ⟨-, -, c, hbare, hof⟩ := parseAt?_eq_some_iff.mp hh
      obtain ⟨-, hkeyword, -⟩ := ofCandidate?_located hle hof
      rw [(bare?_spec hbare).1, Nat.add_zero] at hkeyword
      exact ⟨h, hfind, Nat.le_of_eq hkeyword⟩
    · rcases hc : candidate? (Cursor.ofOffset m q) with - | c
      · rw [(Visits.next .start hc).find?_eq]
        exact ih _ (by omega) (.next hv hc) hlt rfl
      · rcases hof : ofCandidate? (Cursor.ofOffset m q) c with - | h'
        · -- the keyword does not belong to the rejected candidate, so it stands behind it
          have hbehind : q + max 1 c.size ≤ k := by
            rcases Nat.lt_or_ge k (q + c.size) with hin | hout
            · exact absurd ⟨q, c, hv, hc, hof, (parseAt?_inside hc hh hlt).imp_right (⟨·, hin⟩)⟩ hover
            · omega
          rw [(Visits.skip .start hc hof).find?_eq]
          exact ih _ (by omega) (.skip hv hc hof) hbehind rfl
        · have hfind : find? m q = some h' := by
            rw [find?_eq, if_pos (by omega), hc]
            simp only [hof]
            rfl
          obtain ⟨-, hkeyword, -⟩ := ofCandidate?_located (by omega) hof
          refine ⟨h', hfind, ?_⟩
          rw [hkeyword]
          rcases parseAt?_inside hc hh hlt with ⟨-, heq⟩ | hge <;> omega

/-- At the offset `k` a declaration or a statement begins: blanks apart, it is the beginning of the
text or stands behind a semicolon. -/
def AtBeginning (m : Text) (k : Nat) : Prop :=
  ∃ before blanks, m.take k = before ++ blanks ∧ (∀ b ∈ blanks, isBlank b = true) ∧
    (before = [] ∨ ∃ front, before = front ++ [semicolon])

/-- A candidate begins with a letter and ends before the next semicolon. -/
theorem AtBeginning.not_passedOver (hk : AtBeginning m k) : ¬PassedOver m p k := by
  rintro ⟨q, c, -, hc, -, hplace⟩
  have hgap := gap_pos hc
  obtain ⟨-, hwords⟩ := candidate?_eq_some_iff.mp hc
  have hq : q < k ∧ k < q + c.size := by
    simp only [Candidate.size] at hplace ⊢
    omega
  obtain ⟨before, blanks, htake, hblanks, hbefore⟩ := hk
  rcases Nat.lt_or_ge q before.length with hlt | hge
  · -- the semicolon stands behind the beginning of the candidate
    obtain rfl | ⟨front, rfl⟩ := hbefore
    · cases hlt
    rw [List.length_append, List.length_singleton] at hlt
    have hdrop : m.drop q = front.drop q ++ semicolon :: (blanks ++ m.drop k) := by
      conv => lhs; rw [← List.take_append_drop k m, htake]
      rw [List.append_assoc, List.append_assoc, List.drop_append_of_le_length (by omega)]
      rfl
    have hle := (words?_before (front.drop q) (blanks ++ m.drop k)).2 c (by
      rwa [← (words?_before (front.drop q) (blanks ++ m.drop k)).1, ← hdrop])
    have hlen := congrArg List.length htake
    simp only [List.length_drop, List.length_append, List.length_take, List.length_singleton] at hle hlen
    omega
  · -- a blank stands where the candidate begins
    obtain ⟨b, hb, hletter⟩ := (Option.any_eq_true _ _).mp (words?_head hwords).1
    rw [List.getElem?_drop, Nat.add_zero] at hb
    have hmem : blanks[q - before.length]? = some b := by
      rw [← List.getElem?_append_right hge, ← htake, List.getElem?_take_of_lt hq.1, hb]
    have hid := not_isIdentByte_of_isBlank (hblanks b (List.mem_of_getElem? hmem))
    simp [isIdentByte, hletter] at hid

/-- **Main.**  Where a header can be read at a keyword, the search that starts before it finds that
header or an earlier one exactly if it does not pass over the keyword.  It never passes over one at
the beginning of a declaration. -/
theorem find?_reaches (hh : parseAt? m k = some h) (hp : p ≤ k) :
    ((∃ h', find? m p = some h' ∧ h'.keywordStart ≤ k) ↔ ¬PassedOver m p k) ∧
      (AtBeginning m k → ¬PassedOver m p k) := by
  refine ⟨⟨?_, find?_of_not_passedOver hh .start hp⟩, AtBeginning.not_passedOver⟩
  rintro ⟨h', hfind, hle⟩ ⟨q, c, hv, hc, hnone, hplace⟩
  -- the search goes on behind the candidate, and all that it finds stands there
  rw [(hv.skip hc hnone).find?_eq] at hfind
  obtain ⟨hstart, hloc⟩ := find?_located hfind
  have hkeyword := hloc.start_le
  have hgap := gap_pos hc
  simp only [Candidate.size] at hstart hplace
  omega

/-- A procedural type and the routine that is declared behind it. -/
def typeAndRoutine : Text := "TProc = procedure of object; procedure Run; begin end;"

/-- The header of the routine. -/
def runHeader : Header where
  start := 29
  keywordStart := 29
  stop := 43
  kind := .procedure
  isClassMethod := false
  className := none
  name := "Run"
  params := none
  returnType := none
  declarationOnly := false
  directivesEnd := 43

/-- The search passes over the procedural type and finds the routine. -/
theorem find?_typeAndRoutine :
    parseAt? typeAndRoutine 29 = some runHeader ∧
      ∃ h, find? typeAndRoutine 0 = some h ∧ h.keywordStart ≤ 29 := by
  have hparse : parseAt? typeAndRoutine 29 = some runHeader := by decide +kernel
  have hbegins : AtBeginning typeAndRoutine 29 :=
    ⟨"TProc = procedure of object;", [space], by decide +kernel,
      fun b hb => by rw [List.mem_singleton.mp hb]; decide,
      .inr ⟨"TProc = procedure of object", by decide +kernel⟩⟩
  obtain ⟨hreaches, hover⟩ := find?_reaches hparse (Nat.zero_le 29)
  exact ⟨hparse, hreaches.mpr (hover hbegins)⟩

/-- A word `function` without a name of its own, on the line before a method. -/
def unnamedFunction : Text := "function\nprocedure TForm1.Click(Sender: TObject);\nbegin end;"

/-- The method is taken for the name of the function and passed over. -/
theorem find?_unnamedFunction :
    (parseAt? unnamedFunction 9).isSome ∧ find? unnamedFunction 0 = none ∧
      findAll unnamedFunction 0 = [] := by
  decide +kernel

end Routine.Header
end PascalSurvey
