/-
PascalSurvey/Proofs/Routine/Opening.lean

Texts that begin with a method of a class.  The first word of such a text is a routine keyword
or `class`.  Neither is a directive, so no header reaches over it, and a walk that comes to it
is cut there: at the keyword, or at the `class` that is pending when the keyword is read.
-/
import PascalSurvey.Proofs.Routine.Seam

namespace PascalSurvey.Routine

open Ascii Source

variable {m : Text}

/-! ### The first word of a header -/

/-- Where blanks begin no identifier goes on. -/
theorem not_isIdentByte_of_blankRun {t : Text} (h : Text.blankRun t ≠ 0) {c : UInt8}
    (hc : t.head? = some c) : isIdentByte c = false := by
  obtain ⟨r, rfl⟩ := List.head?_eq_some_iff.mp hc
  cases hid : isIdentByte c with
  | false => rfl
  | true =>
    have hread : Utf8.readHead c r = .scalar c.toNat 0 := by
      unfold Utf8.readHead
      rw [if_pos (isIdentByte_ascii hid).2]
    refine absurd ?_ h
    rw [Text.blankRun, Utf8.run, hread]
    exact if_neg (by rw [not_isBlankChar_of_isIdentByte hid]; decide)

/-- A header begins with its keyword, which is a word of its own. -/
theorem keyword_of_parseAt? {k : Nat} {h : Header} (hh : Header.parseAt? m k = some h) :
    ∃ w r, m.drop k = w ++ r ∧ Kind.ofKeyword? w = some h.kind ∧
      Text.toLower w = h.kind.keyword ∧ ∀ c, r.head? = some c → isIdentByte c = false := by
  unfold Header.parseAt? at hh
  split at hh
  case isFalse => cases hh
  unfold Header.atPlace? at hh
  split at hh
  · cases hh
  · obtain ⟨cand, hbare, hof⟩ := Option.bind_eq_some_iff.mp hh
    obtain ⟨-, params, n₁, returnType, n₂, r, kind, -, -, -, hkind, rfl⟩ :=
      Header.ofCandidate?_eq_some_iff.mp hof
    obtain ⟨hlead, -, hgap⟩ := Header.bare?_spec hbare
    rw [hlead, List.drop_zero, Cursor.after_ofOffset] at hkind
    rw [Cursor.after_ofOffset] at hgap
    refine ⟨(m.drop k).take cand.keyword, (m.drop k).drop cand.keyword,
      (List.take_append_drop ..).symm, hkind, ?_, fun c => not_isIdentByte_of_blankRun hgap⟩
    have hfold := List.find?_some hkind
    unfold Text.eqFold at hfold
    rw [beq_iff_eq.mp hfold]
    show Text.toLower kind.keyword = kind.keyword
    cases kind <;> rfl

theorem Kind.ne_nil_of_toLower {w : Text} {kind : Kind} (h : Text.toLower w = kind.keyword) :
    w ≠ [] := by
  rintro rfl
  cases kind <;> cases h

namespace Body

/-- A run of letters ends where no identifier goes on. -/
theorem identRun_letters {w r : Text} (hw : ∀ c ∈ w, isLetter c = true)
    (hr : ∀ c, r.head? = some c → isIdentByte c = false) : identRun (w ++ r) = w.length := by
  have hident : ∀ c ∈ w, isIdentByte c = true := fun c hc => by simp [isIdentByte, hw c hc]
  have hrest : r.takeWhile isIdentByte = [] := by
    cases r with
    | nil => rfl
    | cons c r => exact List.takeWhile_cons_of_neg (by simp [hr c rfl])
  rw [identRun, List.takeWhile_append_of_pos hident, hrest, List.append_nil]

theorem wordAt_of_drop {w r : Text} {q : Nat} (h : m.drop q = w ++ r)
    (hw : ∀ c ∈ w, isLetter c = true) (hr : ∀ c, r.head? = some c → isIdentByte c = false) :
    wordAt m q = Word.ofText w ∧ wordEnd m q = q + w.length := by
  rw [wordAt, wordEnd, h, identRun_letters hw hr, List.take_left]
  exact ⟨rfl, rfl⟩

theorem ofText_keyword {w : Text} {kind : Kind} (h : Text.toLower w = kind.keyword)
    (hkind : Kind.ofKeyword? w = some kind) : Word.ofText w = .routine kind := by
  unfold Word.ofText
  rw [h, hkind]
  cases kind <;> rfl

theorem ofText_class {w : Text} (h : Text.toLower w = "class") : Word.ofText w = .classWord := by
  unfold Word.ofText
  rw [h]
  rfl

end Body

/-! ### Texts that begin with a method of a class -/

/-- The word `class` in any case, and blanks behind it. -/
def IsClassLead (lead : Text) : Prop :=
  ∃ word blanks, lead = word ++ blanks ∧ Text.eqFold word "class" = true ∧ blanks ≠ [] ∧
    ∀ c ∈ blanks, isBlank c = true

/-- The overlay begins with a header of a method of a class, perhaps behind `class`. -/
def BeginsMethod (m : Text) : Prop :=
  ∃ lead h, lead <+: m ∧ (lead = [] ∨ IsClassLead lead) ∧
    Header.parseAt? m lead.length = some h ∧ h.isQualified = true

theorem IsClassLead.toLower {word : Text} (h : Text.eqFold word "class" = true) :
    Text.toLower word = "class" := by
  unfold Text.eqFold at h
  rw [beq_iff_eq.mp h]
  rfl

theorem not_isIdentByte_of_blanks {blanks : Text} (hne : blanks ≠ [])
    (hblanks : ∀ c ∈ blanks, isBlank c = true) (r : Text) :
    ∀ c, (blanks ++ r).head? = some c → isIdentByte c = false := by
  intro c hc
  obtain ⟨c', blanks, rfl⟩ := List.exists_cons_of_ne_nil hne
  obtain rfl := Option.some.inj hc
  exact not_isIdentByte_of_isBlank (hblanks _ List.mem_cons_self)

/-- The word with which a header or a `class` begins. -/
theorem BeginsMethod.word (h : BeginsMethod m) :
    ∃ w r, m = w ++ r ∧ w ≠ [] ∧ (∀ c ∈ w, isLetter c = true) ∧
      (∀ c, r.head? = some c → isIdentByte c = false) ∧
      (Text.toLower w = "class" ∨ ∃ kind : Kind, Text.toLower w = kind.keyword) := by
  obtain ⟨lead, h, ⟨r, rfl⟩, hlead, hparse, -⟩ := h
  rcases hlead with rfl | ⟨word, blanks, rfl, hclass, hne, hblanks⟩
  · obtain ⟨w, r', hw, -, hlower, hr'⟩ := keyword_of_parseAt? hparse
    exact ⟨w, r', hw, Kind.ne_nil_of_toLower hlower,
      isLetter_of_toLower hlower (Header.isLower_of_mem_keyword h.kind), hr', .inr ⟨h.kind, hlower⟩⟩
  · have hlower := IsClassLead.toLower hclass
    refine ⟨word, blanks ++ r, List.append_assoc .., ?_,
      isLetter_of_toLower hlower Header.isLower_of_mem_class, not_isIdentByte_of_blanks hne hblanks r,
      .inl hlower⟩
    rintro rfl
    cases hlower

theorem BeginsMethod.fresh (h : BeginsMethod m) : Fresh m := by
  obtain ⟨w, r, rfl, hne, hw, -, -⟩ := h.word
  intro c r' hcr
  obtain ⟨c', w, rfl⟩ := List.exists_cons_of_ne_nil hne
  rw [← (List.cons.inj hcr).1]
  exact hw _ List.mem_cons_self

/-- Neither `class` nor a routine keyword is a directive. -/
theorem BeginsMethod.noDirective (h : BeginsMethod m) :
    Header.directive? (newline :: m) = none := by
  obtain ⟨w, r, rfl, hne, hw, hr, hword⟩ := h.word
  have hstart : ((w ++ r).head?).any isIdentStart = true ∧
      Source.blankRun (newline :: (w ++ r)) = 1 := by
    obtain ⟨c, w, rfl⟩ := List.exists_cons_of_ne_nil hne
    have hc : isIdentStart c = true := by simp [isIdentStart, hw c List.mem_cons_self]
    refine ⟨hc, ?_⟩
    unfold Source.blankRun
    rw [List.takeWhile_cons_of_pos (by decide), List.cons_append,
      List.takeWhile_cons_of_neg (by simp [not_isBlank_of_isIdentStart hc])]
    rfl
  have hnone : Header.bodilessWords.contains (Text.toLower w) = false ∧
      Header.directiveWords.contains (Text.toLower w) = false := by
    rcases hword with hlower | ⟨kind, hlower⟩
    · rw [hlower]
      exact ⟨rfl, rfl⟩
    · rw [hlower]
      cases kind <;> exact ⟨rfl, rfl⟩
  unfold Header.directive?
  rw [hstart.2]
  simp only [List.drop_succ_cons, List.drop_zero, hstart.1, if_true, Body.identRun_letters hw hr,
    List.take_left, hnone.1, hnone.2]
  rfl

/-- At its keyword a walk reads the header. -/
theorem headerAt_parseAt? {k : Nat} {h : Header} (hh : Header.parseAt? m k = some h) :
    Body.wordAt m k = .routine h.kind ∧ Body.headerAt m k = some h := by
  obtain ⟨w, r, hw, hkind, hlower, hr⟩ := keyword_of_parseAt? hh
  have hletter := isLetter_of_toLower hlower (Header.isLower_of_mem_keyword h.kind)
  have hword : Body.wordAt m k = .routine h.kind := by
    rw [(Body.wordAt_of_drop hw hletter hr).1, Body.ofText_keyword hlower hkind]
  refine ⟨hword, ?_⟩
  unfold Header.parseAt? at hh
  split at hh
  · rw [Body.headerAt, hword]
    exact hh
  · cases hh

/-- Where a header of a method of a class begins, a walk is cut. -/
theorem moveAt_parseAt? {k : Nat} {h : Header} (hh : Header.parseAt? m k = some h)
    (hq : h.isQualified = true) (s : Body.State) :
    Body.moveAt m k s = s.cut (s.pendingClass.getD k) := by
  obtain ⟨hword, hheader⟩ := headerAt_parseAt? hh
  rw [Body.moveAt, hword, hheader]
  simp [Body.afterWord, hq]

/-- The keyword of a header is a code word, if no word or dot stands right before it. -/
theorem wordStart_parseAt? {k : Nat} {h : Header} (hh : Header.parseAt? m k = some h)
    (hbefore : (Body.byteBefore? m k).any Body.binds = false) :
    k ≤ m.length ∧ Body.wordStart m k = true := by
  obtain ⟨w, r, hw, -, hlower, -⟩ := keyword_of_parseAt? hh
  have hletter := isLetter_of_toLower hlower (Header.isLower_of_mem_keyword h.kind)
  obtain ⟨c, w, rfl⟩ := List.exists_cons_of_ne_nil (Kind.ne_nil_of_toLower hlower)
  have hc := Text.getElem?_of_drop hw
  refine ⟨Nat.le_of_lt (Text.lt_length_of_getElem? hc), ?_⟩
  rw [Body.wordStart, hc, hbefore]
  simp [isIdentStart, hletter c List.mem_cons_self]

theorem cut_at_keyword {k : Nat} {h : Header} (hh : Header.parseAt? m k = some h)
    (hq : h.isQualified = true) (hbefore : (Body.byteBefore? m k).any Body.binds = false)
    (s : Body.State) :
    Body.Walks m k s ⟨s.pendingClass.getD k, false, s.suspended = 0 ∧ 0 < s.depth⟩ := by
  obtain ⟨hle, hstart⟩ := wordStart_parseAt? hh hbefore
  refine .halt (Body.words_eq_cons hstart (Body.wordEnd_le hle)) ?_
  rw [Body.State.across_self]
  exact moveAt_parseAt? hh hq s

theorem isBlank_between {u v blanks : Text} (hblanks : ∀ c ∈ blanks, isBlank c = true) {i : Nat}
    {c : UInt8} (hi : u.length ≤ i) (hlt : i < u.length + blanks.length)
    (hc : (u ++ (blanks ++ v))[i]? = some c) : isBlank c = true := by
  rw [List.getElem?_append_right hi, List.getElem?_append_left (by omega)] at hc
  exact hblanks c (List.mem_of_getElem? hc)

/-- Blanks hold no words, and a `class` before them still counts behind them. -/
theorem blanks_between {u v blanks : Text} (hblanks : ∀ c ∈ blanks, isBlank c = true) :
    Body.words (u ++ (blanks ++ v)) u.length (u.length + blanks.length) = [] ∧
      Body.clear (u ++ (blanks ++ v)) u.length (u.length + blanks.length) = true := by
  constructor
  · apply Body.words_eq_nil
    intro i hi hlt
    cases hstart : Body.wordStart (u ++ (blanks ++ v)) i with
    | false => rfl
    | true =>
      obtain ⟨c, hc, hid⟩ := Body.getElem?_of_wordStart hstart
      have hblank := isBlank_between hblanks hi hlt hc
      rw [not_isBlank_of_isIdentStart hid] at hblank
      cases hblank
  · apply Body.clear_iff.mpr
    intro i c hi hlt hc
    rw [isBlank_between hblanks hi hlt hc]
    rfl

/-- No word or dot stands right before what follows blanks. -/
theorem byteBefore?_blanks {u v blanks : Text} (hne : blanks ≠ [])
    (hblanks : ∀ c ∈ blanks, isBlank c = true) :
    (Body.byteBefore? (u ++ (blanks ++ v)) (u.length + blanks.length)).any Body.binds = false := by
  obtain ⟨j, hj⟩ := Nat.exists_eq_succ_of_ne_zero (Nat.ne_of_gt (List.length_pos_iff.mpr hne))
  rw [hj]
  show ((u ++ (blanks ++ v))[u.length + j]?).any Body.binds = false
  rcases hc : (u ++ (blanks ++ v))[u.length + j]? with - | c
  · rfl
  · have hblank := isBlank_between hblanks (Nat.le_add_right _ _) (by omega) hc
    exact Body.not_binds_of_isBlank hblank

/-- A `class` at the head of a text is pending behind it. -/
theorem moveAt_class {word r : Text} (hclass : Text.eqFold word "class" = true)
    (hr : ∀ c, r.head? = some c → isIdentByte c = false) (s : Body.State) :
    Body.words (word ++ r) 0 (word ++ r).length =
        0 :: Body.words (word ++ r) word.length (word ++ r).length ∧
      Body.moveAt (word ++ r) 0 s = .goOn word.length { s with pendingClass := some 0 } := by
  have hlower := IsClassLead.toLower hclass
  have hletter := isLetter_of_toLower hlower Header.isLower_of_mem_class
  have hne : word ≠ [] := by
    rintro rfl
    cases hlower
  obtain ⟨hword, hend⟩ := Body.wordAt_of_drop (m := word ++ r) (q := 0) rfl hletter hr
  rw [Nat.zero_add] at hend
  have hstart : Body.wordStart (word ++ r) 0 = true := by
    obtain ⟨c, word, rfl⟩ := List.exists_cons_of_ne_nil hne
    simp [Body.wordStart, Body.byteBefore?, isIdentStart, hletter c List.mem_cons_self]
  constructor
  · rw [Body.words_eq_cons hstart (Body.wordEnd_le (Nat.zero_le _)), hend]
  · rw [Body.moveAt, hword, Body.ofText_class hlower, hend]
    rfl

/-- **A walk that comes to a method of a class is cut at its first word.** -/
theorem BeginsMethod.cut (h : BeginsMethod m) (s : Body.State) (hs : s.pendingClass = none) :
    Body.Walks m 0 s ⟨0, false, s.suspended = 0 ∧ 0 < s.depth⟩ := by
  obtain ⟨lead, h, ⟨r, rfl⟩, hlead, hparse, hq⟩ := h
  rcases hlead with rfl | ⟨word, blanks, rfl, hclass, hne, hblanks⟩
  · have := cut_at_keyword hparse hq rfl s
    rw [hs] at this
    exact this
  · -- the walk goes on behind `class`, which is still pending at the keyword
    rw [List.append_assoc] at hparse ⊢
    rw [List.length_append] at hparse
    obtain ⟨hwords, hmove⟩ := moveAt_class hclass (not_isIdentByte_of_blanks hne hblanks r) s
    obtain ⟨hnil, hclear⟩ := blanks_between (u := word) (v := r) hblanks
    refine .goOn hwords (by rw [Body.State.across_self, hmove])
      (.skip (Nat.le_add_right word.length blanks.length) ?_ hnil ?_)
    · simp only [List.length_append]
      omega
    · rw [Body.State.across, if_pos hclear]
      exact cut_at_keyword hparse hq (byteBefore?_blanks hne hblanks) { s with pendingClass := some 0 }

end PascalSurvey.Routine
