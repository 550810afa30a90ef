/-
PascalSurvey/Proofs/Text/Elastic.lean

Readers to which the length of a gap does not matter.  A gap is one blank or more.  If a gap in a
text is made longer or shorter, an `Elastic` reader takes the same up to where the gap stands, or it
takes the whole gap and the same behind it (`SamePlace`).  Blanks, identifiers and keywords are read
in this way, and so is what is read by one such reader behind another (`Elastic.andThen`).

Trimming keeps the gap or takes it off (`trim_gap`), and a text without its white space is the same
(`withoutBlanks_gap`).
-/
import Mathlib.Data.List.SplitBy
import PascalSurvey.Proofs.Text.Chars
import PascalSurvey.Proofs.Text.Spelling

namespace PascalSurvey

open Ascii

/-- One blank or more. -/
structure IsGap (e : Text) : Prop where
  ne_nil : e ≠ []
  blank : ∀ b ∈ e, isBlank b = true

theorem isBlankChar_of_isBlank {b : UInt8} (h : isBlank b = true) :
    b < 0x80 ∧ isBlankChar b.toNat = true := by
  simp only [isBlank, Bool.or_eq_true, beq_iff_eq] at h
  rcases h with (((rfl | rfl) | rfl) | rfl) | rfl <;> decide

/-- White space below 0x80. -/
abbrev Blanks (e : Text) : Prop := ∀ b ∈ e, b < 0x80 ∧ isBlankChar b.toNat = true

theorem IsGap.blanks {e : Text} (h : IsGap e) : Blanks e :=
  fun b hb => isBlankChar_of_isBlank (h.blank b hb)

theorem IsGap.cons {e : Text} (h : IsGap e) : ∃ c r, e = c :: r ∧ isBlank c = true := by
  obtain ⟨c, r, rfl⟩ := List.exists_cons_of_ne_nil h.ne_nil
  exact ⟨c, r, rfl, h.blank c List.mem_cons_self⟩

theorem IsGap.quote_not_mem {e : Text} (h : IsGap e) : quote ∉ e := by
  intro hmem
  cases h.blank _ hmem

/-- What stands behind a gap does not begin with the rest of a character. -/
abbrev Uncut (v : Text) : Prop := v.head?.any Utf8.isContinuation = false

theorem uncut_ascii {b : UInt8} (h : b < 0x80) (r : Text) : Uncut (b :: r) := by
  simp [Uncut, Utf8.isContinuation, UInt8.not_le.mpr h]

/-- `n` bytes of `u ++ e ++ v` and `n'` bytes of `u ++ e' ++ v` end at the same place: in `u`, or in
`v`. -/
inductive SamePlace (u e e' v : Text) : Nat → Nat → Prop
  | front {n : Nat} (h : n ≤ u.length) : SamePlace u e e' v n n
  | behind {k : Nat} (h : 0 < k → Uncut v) :
      SamePlace u e e' v (u.length + e.length + k) (u.length + e'.length + k)

/-- A reader to which the length of a gap does not matter.  It reads whole characters and no
quote. -/
structure Elastic (f : Text → Option Nat) : Prop where
  place : ∀ {u e e' v}, IsGap e → IsGap e' →
    Option.Rel (SamePlace u e e' v) (f (u ++ e ++ v)) (f (u ++ e' ++ v))
  uncut : ∀ {t n}, f t = some n → 0 < n → Uncut t
  noQuote : ∀ {t n}, f t = some n → quote ∉ t.take n

section
variable {u e e' v : Text} {n n' m m' : Nat}

theorem drop_front (h : n ≤ u.length) : (u ++ e ++ v).drop n = u.drop n ++ e ++ v := by
  rw [List.append_assoc, List.drop_append_of_le_length h, List.append_assoc]

theorem drop_behind (k : Nat) : (u ++ e ++ v).drop (u.length + e.length + k) = v.drop k := by
  rw [← List.length_append, List.drop_length_add_append]

theorem SamePlace.pos_iff (h : SamePlace u e e' v n n') (he : IsGap e) (he' : IsGap e') :
    0 < n ↔ 0 < n' := by
  have := List.length_pos_iff.mpr he.ne_nil
  have := List.length_pos_iff.mpr he'.ne_nil
  cases h with
  | front => exact Iff.rfl
  | behind => constructor <;> intro <;> omega

theorem SamePlace.add (hn : n ≤ u.length) (h : SamePlace (u.drop n) e e' v m m') :
    SamePlace u e e' v (n + m) (n + m') := by
  cases h with
  | front h =>
    rw [List.length_drop] at h
    exact .front (by omega)
  | @behind k h =>
    have hsum (l : Nat) : n + ((u.drop n).length + l + k) = u.length + l + k := by
      rw [List.length_drop]
      omega
    rw [hsum, hsum]
    exact .behind h

/-- A second reading goes on behind the gap. -/
theorem SamePlace.behind_add {k : Nat} (hk : 0 < k → Uncut v) (hm : 0 < m → Uncut (v.drop k)) :
    SamePlace u e e' v (u.length + e.length + k + m) (u.length + e'.length + k + m) := by
  rw [Nat.add_assoc _ k, Nat.add_assoc _ k]
  refine .behind fun hpos => ?_
  rcases Nat.eq_zero_or_pos k with rfl | hkpos
  · exact hm (by omega)
  · exact hk hkpos

/-- Two readings up to the same place leave texts that differ in the gap or not at all. -/
theorem SamePlace.rest (h : SamePlace u e e' v n n') :
    (n = n' ∧ n ≤ u.length ∧ (u ++ e ++ v).drop n = u.drop n ++ e ++ v ∧
      (u ++ e' ++ v).drop n' = u.drop n ++ e' ++ v) ∨
    (u ++ e ++ v).drop n = (u ++ e' ++ v).drop n' := by
  cases h with
  | front h => exact .inl ⟨rfl, h, drop_front h, drop_front h⟩
  | behind h => exact .inr ((drop_behind _).trans (drop_behind _).symm)

end

namespace Elastic

variable {f g : Text → Option Nat}

theorem congr (hf : Elastic f) (h : ∀ t, g t = f t) : Elastic g := by
  obtain rfl : g = f := funext h
  exact hf

/-- **One elastic reader behind another is elastic.** -/
theorem andThen (hf : Elastic f) (hg : Elastic g) :
    Elastic fun t => (f t).bind fun n => (g (t.drop n)).map (n + ·) where
  place {u e e' v} he he' := by
    have hplace := hf.place (u := u) (v := v) he he'
    generalize f (u ++ e ++ v) = a, f (u ++ e' ++ v) = b at hplace
    cases hplace with
    | none => exact .none
    | @some n n' hsame =>
      simp only [Option.bind_some]
      cases hsame with
      | front h =>
        rw [drop_front h, drop_front h]
        have hrest := hg.place (u := u.drop n) (v := v) he he'
        generalize g (u.drop n ++ e ++ v) = a, g (u.drop n ++ e' ++ v) = b at hrest
        cases hrest with
        | none => exact .none
        | some hrest => exact .some (hrest.add h)
      | @behind k h =>
        rw [drop_behind, drop_behind]
        rcases hm : g (v.drop k) with - | m
        · exact .none
        · exact .some (.behind_add h (hg.uncut hm))
  uncut {t n} hn hpos := by
    obtain ⟨k, hk, hn⟩ := Option.bind_eq_some_iff.mp hn
    obtain ⟨m, hm, rfl⟩ := Option.map_eq_some_iff.mp hn
    rcases Nat.eq_zero_or_pos k with rfl | hkpos
    · exact hg.uncut hm (by omega)
    · exact hf.uncut hk hkpos
  noQuote {t n} hn := by
    obtain ⟨k, hk, hn⟩ := Option.bind_eq_some_iff.mp hn
    obtain ⟨m, hm, rfl⟩ := Option.map_eq_some_iff.mp hn
    rw [List.take_add, List.mem_append, not_or]
    exact ⟨hf.noQuote hk, hg.noQuote hm⟩

/-- An elastic reader that may read nothing. -/
theorem getD (hf : Elastic f) : Elastic fun t => some ((f t).getD 0) where
  place {u e e' v} he he' := by
    have hplace := hf.place (u := u) (v := v) he he'
    generalize f (u ++ e ++ v) = a, f (u ++ e' ++ v) = b at hplace
    cases hplace with
    | none => exact .some (.front (Nat.zero_le _))
    | some hsame => exact .some hsame
  uncut {t n} hn hpos := by
    rcases hf' : f t with - | m
    · rw [hf'] at hn
      cases hn
      cases hpos
    · rw [hf'] at hn
      cases hn
      exact hf.uncut hf' hpos
  noQuote {t n} hn := by
    rcases hf' : f t with - | m
    · rw [hf'] at hn
      cases hn
      simp
    · rw [hf'] at hn
      cases hn
      exact hf.noQuote hf'

/-- An elastic reader that has to read something. -/
theorem positive (hf : Elastic f) : Elastic fun t => (f t).filter (0 < ·) where
  place {u e e' v} he he' := by
    have hplace := hf.place (u := u) (v := v) he he'
    generalize f (u ++ e ++ v) = a, f (u ++ e' ++ v) = b at hplace
    cases hplace with
    | none => exact .none
    | @some n n' hsame =>
      have hpos := hsame.pos_iff he he'
      by_cases hn : 0 < n
      · simp only [Option.filter_some, decide_eq_true_eq, hn, hpos.mp hn, if_true]
        exact .some hsame
      · simp only [Option.filter_some, decide_eq_true_eq, hn, mt hpos.mpr hn, if_false]
        exact .none
  uncut hn hpos := hf.uncut (Option.filter_eq_some_iff.mp hn).1 hpos
  noQuote hn := hf.noQuote (Option.filter_eq_some_iff.mp hn).1

/-- In front of a gap an elastic reader leaves all the quotes. -/
theorem count_drop (hf : Elastic f) {u e v : Text} {n : Nat} (hn : f (u ++ e ++ v) = some n)
    (hle : n ≤ u.length) : (u.drop n).count quote = u.count quote := by
  have hquote := hf.noQuote hn
  rw [List.append_assoc, List.take_append_of_le_length hle] at hquote
  conv => rhs; rw [← List.take_append_drop n u]
  rw [List.count_append, List.count_eq_zero.mpr hquote, Nat.zero_add]

/-- A reader that takes no blank, and to which what stands behind a blank does not matter. -/
theorem of_solid (hsame : ∀ x c y, isBlank c = true → f (x ++ c :: y) = f x)
    (hle : ∀ {t n}, f t = some n → n ≤ t.length)
    (huncut : ∀ {t n}, f t = some n → 0 < n → Uncut t)
    (hquote : ∀ {t n}, f t = some n → quote ∉ t.take n) : Elastic f where
  place {u e e' v} he he' := by
    have hgap {e : Text} (he : IsGap e) : f (u ++ e ++ v) = f u := by
      obtain ⟨c, r, rfl, hc⟩ := he.cons
      rw [List.append_assoc, List.cons_append, hsame u c _ hc]
    rw [hgap he, hgap he']
    rcases hn : f u with - | n
    · exact .none
    · exact .some (.front (hle hn))
  uncut := huncut
  noQuote := hquote

end Elastic

/-! ### Blanks, words and names -/

theorem Utf8.uncut_of_run {p : Nat → Bool} {t : Text} (h : 0 < run p t) : Uncut t := by
  cases t with
  | nil => rfl
  | cons a r =>
    rcases hread : readHead a r with ⟨code, more⟩ | more
    · exact (readHead_scalar hread).2.1
    · rw [run, hread] at h
      cases h

/-- A run goes through a gap of its class. -/
theorem Utf8.run_gap {e : Text} (he : IsGap e) (v : Text) :
    run isBlankChar (e ++ v) = e.length + run isBlankChar v :=
  run_append he.blanks v

namespace Text

theorem chars_of_blanks {e : Text} (he : Blanks e) : Utf8.Chars isBlankChar e :=
  Utf8.chars_ascii he

/-- White space in front of what is none is read to its end. -/
theorem blankRun_append {x r : Text} (hx : Utf8.Chars isBlankChar x)
    (hr : Utf8.run isBlankChar r = 0) : blankRun (x ++ r) = x.length := by
  rw [blankRun, hx.run_append hr, Utf8.chars_iff.mp hx]

theorem elastic_blankRun : Elastic fun t => some (blankRun t) where
  place {u e e' v} he he' := by
    have hrun {e : Text} (he : IsGap e) : blankRun (u ++ e ++ v) =
        if blankRun u = u.length then u.length + e.length + blankRun v else blankRun u := by
      obtain ⟨c, r, rfl, hc⟩ := he.cons
      have hgap := Utf8.run_gap he v
      rw [List.cons_append] at hgap
      rw [List.append_assoc, List.cons_append, blankRun,
        Utf8.run_separator (isBlankChar_of_isBlank hc).1, hgap, ← Nat.add_assoc]
      rfl
    rw [hrun he, hrun he']
    refine .some ?_
    split
    · exact .behind Utf8.uncut_of_run
    · exact .front (Utf8.run_le _ u)
  uncut {t n} hn hpos := by
    cases hn
    exact Utf8.uncut_of_run hpos
  noQuote {t n} hn hmem := by
    cases hn
    rcases Utf8.mem_take_run hmem with h | h <;> exact absurd h (by decide)

/-- Reading one byte below 0x80 that is neither a blank nor a quote. -/
theorem elastic_byte {b : UInt8} (hascii : b < 0x80) (hblank : isBlank b = false)
    (hquote : b ≠ quote) : Elastic fun t => if t.head? = some b then some 1 else none := by
  have hread {t : Text} {n : Nat} (h : (if t.head? = some b then some 1 else none) = some n) :
      n = 1 ∧ ∃ r, t = b :: r := by
    split at h
    · next hhead =>
      cases h
      exact ⟨rfl, List.head?_eq_some_iff.mp hhead⟩
    · cases h
  refine .of_solid (fun x c y hc => ?_) (fun h => ?_) (fun h _ => ?_) (fun h => ?_)
  · cases x with
    | nil =>
      rw [List.nil_append, List.head?_cons, List.head?_nil, if_neg, if_neg (by simp)]
      rintro h
      rw [Option.some.inj h, hblank] at hc
      cases hc
    | cons a x => rfl
  · obtain ⟨rfl, r, rfl⟩ := hread h
    exact Nat.succ_le_succ (Nat.zero_le _)
  · obtain ⟨-, r, rfl⟩ := hread h
    exact uncut_ascii hascii r
  · obtain ⟨rfl, r, rfl⟩ := hread h
    simpa using hquote.symm

/-- What an identifier begins with. -/
theorem identStartFold?_spec {t : Text} {n : Nat} (h : identStartFold? t = some n) :
    n ≤ t.length ∧ Uncut t ∧ quote ∉ t.take n := by
  cases t with
  | nil => cases h
  | cons a r =>
    rw [identStartFold?_cons] at h
    split at h
    · next hs =>
      obtain ⟨rfl, hb⟩ := hs
      obtain ⟨r, rfl⟩ := cons_of_getElem?_zero hb
      cases h
      exact ⟨by simp, rfl, show quote ∉ ([0xC5, 0xBF] : Text) by decide⟩
    · split at h
      · next hk =>
        obtain ⟨rfl, hb, hc⟩ := hk
        obtain ⟨r, rfl⟩ := cons_cons_of_getElem? hb hc
        cases h
        exact ⟨by simp, rfl, show quote ∉ ([0xE2, 0x84, 0xAA] : Text) by decide⟩
      · split at h
        · next hstart =>
          cases h
          have hid := isIdentStart_isIdentByte hstart
          refine ⟨by simp, uncut_ascii (isIdentByte_lt hid) r, ?_⟩
          rw [List.take_succ_cons, List.take_zero, List.mem_singleton]
          rintro rfl
          cases hid
        · cases h

theorem identStartFold?_separator {c : UInt8} (hc : isBlank c = true) (x y : Text) :
    identStartFold? (x ++ c :: y) = identStartFold? x := by
  obtain ⟨hascii, hid⟩ := isSeparator_iff.mp (isSeparator_of_isBlank hc)
  have hne {b : UInt8} (hb : 0x80 ≤ b) : c ≠ b := by
    rintro rfl
    exact absurd hascii (UInt8.not_lt.mpr hb)
  cases x with
  | nil =>
    have hstart : isIdentStart c = false := by
      rw [Bool.eq_false_iff]
      intro hstart
      rw [isIdentStart_isIdentByte hstart] at hid
      cases hid
    rw [List.nil_append, identStartFold?_cons, if_neg fun h => hne (by decide) h.1,
      if_neg fun h => hne (by decide) h.1, hstart]
    rfl
  | cons a x =>
    rw [List.cons_append, identStartFold?_cons, identStartFold?_cons]
    rcases x with - | ⟨b, - | ⟨d, x⟩⟩
    · simp [hne (b := 0xBF) (by decide), hne (b := 0x84) (by decide)]
    · simp [hne (b := 0xAA) (by decide)]
    · rfl

theorem elastic_identFold? : Elastic identFold? := by
  have hspec {t : Text} {n : Nat} (h : identFold? t = some n) :
      ∃ k, identStartFold? t = some k ∧ n = k + wordRun (t.drop k) := by
    obtain ⟨k, hk, h⟩ := Option.bind_eq_some_iff.mp h
    exact ⟨k, hk, (Option.some.inj h).symm⟩
  refine .of_solid (fun x c y hc => ?_) (fun {t n} h => ?_) (fun h _ => ?_) (fun {t n} h => ?_)
  · have hword : Utf8.run isWordChar (c :: y) = 0 :=
      Utf8.run_eq_zero (isBlankChar_of_isBlank hc).1
        (not_isWordChar_of_isBlankChar (isBlankChar_of_isBlank hc).2) y
    rw [identFold?, identFold?, identStartFold?_separator hc]
    rcases hk : identStartFold? x with - | k
    · rfl
    · have hle := (identStartFold?_spec hk).1
      simp only [Option.bind_eq_bind, Option.bind_some, List.drop_append_of_le_length hle, wordRun,
        Utf8.run_separator (isBlankChar_of_isBlank hc).1, hword]
      split <;> simp_all
  · obtain ⟨k, hk, rfl⟩ := hspec h
    have := Utf8.run_le isWordChar (t.drop k)
    have := (identStartFold?_spec hk).1
    rw [List.length_drop] at *
    rw [wordRun]
    omega
  · obtain ⟨k, hk, rfl⟩ := hspec h
    exact (identStartFold?_spec hk).2.1
  · obtain ⟨k, hk, rfl⟩ := hspec h
    rw [List.take_add, List.mem_append, not_or]
    refine ⟨(identStartFold?_spec hk).2.2, fun hmem => ?_⟩
    rcases Utf8.mem_take_run hmem with h | h
    · exact absurd h (by decide)
    · rw [isWordChar_ascii (by decide)] at h
      cases h

theorem Spells.uncut {w : UInt8} {char : Text} (h : Spells w char) (hw : isLower w = true)
    (r : Text) : Uncut (char ++ r) := by
  cases h with
  | @letter b hb =>
    have hid : isIdentByte b = true := by simp [isIdentByte, isLetter_of_lower hb hw]
    exact uncut_ascii (isIdentByte_lt hid) r
  | longS | kelvin => rfl

theorem elastic_matchFold? {word : Text} (hword : ∀ w ∈ word, isLower w = true) :
    Elastic (matchFold? word) := by
  refine .of_solid (fun x c y hc => matchFold?_separator (isSeparator_of_isBlank hc) hword x y)
    matchFold?_le (fun h hpos => ?_) (fun h => ?_)
  · cases word with
    | nil =>
      rw [matchFold?] at h
      cases h
      cases hpos
    | cons w word =>
      obtain ⟨char, r, n, rfl, hchar, -, -⟩ := matchFold?_spells h
      exact hchar.uncut (hword w List.mem_cons_self) r
  · intro hmem
    rcases mem_take_matchFold? h hword hmem with h | h <;> exact absurd h (by decide)

theorem elastic_matchWord? {word : Text} (hword : ∀ w ∈ word, isLower w = true) :
    Elastic (matchWord? word) := by
  have hfold {t : Text} {n : Nat} (h : matchWord? word t = some n) : matchFold? word t = some n := by
    obtain ⟨m, hm, h⟩ := Option.bind_eq_some_iff.mp h
    split at h
    · cases h
    · rw [hm, h]
  have helastic := elastic_matchFold? hword
  exact .of_solid (fun x c y hc => matchWord?_separator (isSeparator_of_isBlank hc) hword x y)
    (fun h => matchFold?_le (hfold h)) (fun h => helastic.uncut (hfold h))
    (fun h => helastic.noQuote (hfold h))

/-! ### Trimming -/

/-- Trimming from behind stops at a byte below 0x80 or goes through it. -/
theorem dropBlanksBack_ascii {c : UInt8} (hc : c < 0x80) (s r : Text) :
    dropBlanksBack (s ++ c :: r) =
      if dropBlanksBack s = [] then dropBlanksBack (c :: r) else dropBlanksBack s ++ c :: r := by
  -- no character goes on with the byte
  have hcont : Utf8.isContinuation c = false := by
    simp [Utf8.isContinuation, UInt8.not_le.mpr hc]
  have htwo (a : UInt8) : Utf8.code? [c, a] = none := by
    simp [Utf8.code?, Utf8.head?, Utf8.readHead_ascii hc]
  have hfront (a b : UInt8) : Utf8.code? [c, b, a] = none := by
    simp [Utf8.code?, Utf8.head?, Utf8.readHead_ascii hc]
  have hinside (a b : UInt8) : Utf8.code? [b, c, a] = none := by
    rcases hread : Utf8.readHead b [c, a] with ⟨code, more⟩ | more
    · have hmore : more ≠ 2 := by
        rintro rfl
        rw [Utf8.readHead_continues (b := c) hread (by simp)] at hcont
        cases hcont
      simpa [Utf8.code?, Utf8.head?, hread] using hmore
    · simp [Utf8.code?, Utf8.head?, hread]
  fun_induction dropBlanksBack s with
  | case1 => simp
  | case2 a before hascii hblank ih =>
    rw [List.cons_append, dropBlanksBack.eq_def]
    simpa [hascii, hblank] using ih
  | case3 a before hascii hink =>
    rw [List.cons_append, dropBlanksBack.eq_def]
    simp [hascii, hink]
  | case4 a hascii b before hblank ih =>
    rw [List.cons_append, List.cons_append, dropBlanksBack.eq_def]
    simpa [hascii, hblank] using ih
  | case5 a hascii b htwo' d before hblank ih =>
    rw [List.cons_append, List.cons_append, List.cons_append, dropBlanksBack.eq_def]
    simpa [hascii, hblank, htwo'] using ih
  | case6 a hascii b htwo' d before hink =>
    rw [List.cons_append, List.cons_append, List.cons_append, dropBlanksBack.eq_def]
    simp [hascii, hink, htwo']
  | case7 a hascii b htwo' =>
    rw [List.cons_append, List.cons_append, List.nil_append, dropBlanksBack.eq_def]
    simp [hascii, htwo', hfront]
  | case8 a hascii =>
    rw [List.cons_append, List.nil_append, dropBlanksBack.eq_def]
    cases r with
    | nil => simp [hascii, htwo]
    | cons d r => simp [hascii, htwo, hinside]

theorem dropBlanksBack_blanks {e : Text} (he : Blanks e) (r : Text) :
    dropBlanksBack (e ++ r) = dropBlanksBack r := by
  induction e with
  | nil => rfl
  | cons b e ih =>
    obtain ⟨hascii, hblank⟩ := he b List.mem_cons_self
    rw [List.cons_append, dropBlanksBack.eq_def]
    simpa [hascii, hblank] using ih fun c hc => he c (List.mem_cons_of_mem _ hc)

theorem trimEnd_gap {e : Text} (he : IsGap e) (u v : Text) :
    trimEnd (u ++ e ++ v) = if trimEnd v = [] then trimEnd u else u ++ e ++ trimEnd v := by
  have hback : IsGap e.reverse :=
    ⟨by simpa using he.ne_nil, fun b hb => he.blank b (List.mem_reverse.mp hb)⟩
  obtain ⟨c, r, hcr, hc⟩ := hback.cons
  have hdrop : dropBlanksBack (c :: (r ++ u.reverse)) = dropBlanksBack u.reverse := by
    rw [← List.cons_append, ← hcr]
    exact dropBlanksBack_blanks hback.blanks _
  unfold trimEnd
  rw [List.reverse_append, List.reverse_append, hcr, List.cons_append,
    dropBlanksBack_ascii (isBlankChar_of_isBlank hc).1, hdrop]
  by_cases hv : dropBlanksBack v.reverse = []
  · simp [hv]
  · have he' : e = r.reverse ++ [c] := by
      rw [← List.reverse_reverse e, hcr, List.reverse_cons]
    simp [hv, he']

/-- Blanks in front are trimmed off. -/
theorem trim_front {e : Text} (he : Blanks e) (v : Text) : trim (e ++ v) = trim v := by
  induction e with
  | nil => rfl
  | cons b e ih =>
    obtain ⟨hascii, hblank⟩ := he b List.mem_cons_self
    rw [List.cons_append, trim, trimStart_blank hascii hblank]
    exact ih fun c hc => he c (List.mem_cons_of_mem _ hc)

/-- So are the blanks behind. -/
theorem trim_behind {e : Text} (he : IsGap e) (u : Text) : trim (u ++ e) = trim u := by
  obtain ⟨c, r, rfl, hc⟩ := he.cons
  have hend (x : Text) : trimEnd (x ++ c :: r) = trimEnd x := by
    have := trimEnd_gap he x []
    rwa [List.append_nil, if_pos (by rfl)] at this
  have hrun : Utf8.run isBlankChar (c :: r) = (c :: r).length := by
    have := Utf8.run_gap he []
    rwa [List.append_nil, Utf8.run, Nat.add_zero] at this
  rw [trim, trim, trimStart, trimStart, blankRun, blankRun,
    Utf8.run_separator (isBlankChar_of_isBlank hc).1, hrun]
  split
  · next hall =>
    rw [hall, List.drop_length, ← List.length_append, List.drop_length]
  · rw [List.drop_append_of_le_length (Utf8.run_le _ u), hend]

/-- What stands between blanks is left, if it has none at its ends. -/
theorem trim_between {e e' t r u : Text} {a b : UInt8} (he : Blanks e) (he' : Blanks e')
    (hhead : t = a :: r) (ha : a < 0x80) (haink : isBlankChar a.toNat = false)
    (hlast : t = u ++ [b]) (hb : b < 0x80) (hbink : isBlankChar b.toNat = false) :
    trim (e ++ (t ++ e')) = t := by
  have hend : trimEnd (t ++ e') = t := by
    have hback : Blanks e'.reverse := fun c hc => he' c (List.mem_reverse.mp hc)
    have hink := trimEnd_ink hb hbink u
    rw [← hlast, trimEnd] at hink
    rw [trimEnd, List.reverse_append, dropBlanksBack_blanks hback, hink]
  rw [trim_front he, trim, hhead, List.cons_append, trimStart_ink ha haink, ← List.cons_append,
    ← hhead, hend]

/-- **Trimming keeps a gap or takes it off.** -/
theorem trim_gap {e e' : Text} (he : IsGap e) (he' : IsGap e') (u v : Text) :
    trim (u ++ e ++ v) = trim (u ++ e' ++ v) ∨
      ∃ u₂ v₂, u₂.count quote = u.count quote ∧ trim (u ++ e ++ v) = u₂ ++ e ++ v₂ ∧
        trim (u ++ e' ++ v) = u₂ ++ e' ++ v₂ := by
  have hplace := elastic_blankRun.place (u := u) (v := v) he he'
  obtain ⟨n, n', hn, hn', hsame⟩ : ∃ n n', blankRun (u ++ e ++ v) = n ∧
      blankRun (u ++ e' ++ v) = n' ∧ SamePlace u e e' v n n' := by
    cases hplace with
    | some h => exact ⟨_, _, rfl, rfl, h⟩
  rw [trim, trim, trimStart, trimStart, hn, hn']
  rcases hsame.rest with ⟨rfl, hle, hu, hu'⟩ | heq
  · rw [hu, hu', trimEnd_gap he, trimEnd_gap he']
    split
    · exact .inl rfl
    · refine .inr ⟨_, _, ?_, rfl, rfl⟩
      exact elastic_blankRun.count_drop (congrArg some hn) hle
  · exact .inl (congrArg trimEnd heq)

/-! ### Texts without white space -/

theorem withoutBlanks_append (x : Text) {y : Text} (hy : Uncut y) :
    withoutBlanks (x ++ y) = withoutBlanks x ++ withoutBlanks y := by
  have hchars : Utf8.chars (x ++ y) = Utf8.chars x ++ Utf8.chars y := by
    refine List.splitBy_append fun _ _ c hc => ?_
    rwa [Uncut, Option.mem_def.mp hc, Option.any_some] at hy
  rw [withoutBlanks, Utf8.remove, hchars, List.filter_append, List.flatten_append]
  rfl

/-- In a text below 0x80 the bytes that are white space are left out. -/
theorem withoutBlanks_ascii {t : Text} (ht : ∀ b ∈ t, b < 0x80) :
    withoutBlanks t = t.filter fun b => !isBlankChar b.toNat := by
  induction t with
  | nil => rfl
  | cons b t ih =>
    have huncut : Uncut t := by
      cases t with
      | nil => rfl
      | cons c t => exact uncut_ascii (ht c (by simp)) t
    have hone : withoutBlanks [b] = [b].filter fun b => !isBlankChar b.toNat := by
      cases hblank : isBlankChar b.toNat <;>
        simp [withoutBlanks, Utf8.remove, Utf8.chars, List.splitBy, List.splitBy.loop, Utf8.code?,
          Utf8.head?, Utf8.readHead_ascii (ht b List.mem_cons_self), hblank]
    rw [← List.singleton_append, withoutBlanks_append _ huncut, hone,
      ih fun c hc => ht c (List.mem_cons_of_mem _ hc), List.filter_append]

theorem withoutBlanks_blanks {e : Text} (he : Blanks e) : withoutBlanks e = [] := by
  rw [withoutBlanks_ascii fun b hb => (he b hb).1, List.filter_eq_nil_iff]
  intro b hb
  rw [(he b hb).2]
  decide

/-- **What stands before the same place is the same without white space.** -/
theorem withoutBlanks_gap {u e e' v : Text} {n n' : Nat} (he : IsGap e) (he' : IsGap e')
    (h : SamePlace u e e' v n n') :
    withoutBlanks ((u ++ e ++ v).take n) = withoutBlanks ((u ++ e' ++ v).take n') := by
  cases h with
  | front h =>
    rw [List.append_assoc, List.append_assoc, List.take_append_of_le_length h,
      List.take_append_of_le_length h]
  | @behind k h =>
    have hgap {e : Text} (he : IsGap e) : withoutBlanks ((u ++ e ++ v).take
        (u.length + e.length + k)) = withoutBlanks u ++ withoutBlanks (v.take k) := by
      have hrest : Uncut (v.take k) := by
        cases k with
        | zero => rfl
        | succ k =>
          have hv := h (Nat.succ_pos k)
          cases v with
          | nil => rfl
          | cons c v => exact hv
      have hbehind : Uncut (e ++ v.take k) := by
        obtain ⟨c, r, rfl, hc⟩ := he.cons
        exact uncut_ascii (isBlankChar_of_isBlank hc).1 _
      rw [← List.length_append, List.take_length_add_append, List.append_assoc,
        withoutBlanks_append u hbehind, withoutBlanks_append e hrest,
        withoutBlanks_blanks he.blanks, List.nil_append]
    rw [hgap he, hgap he']

end Text
end PascalSurvey
