/-
PascalSurvey/Proofs/Text/Spelling.lean

How a keyword is spelled, and words next to a separator.  Where case is ignored a letter has
more than one spelling, some of several bytes (`Spells`); a keyword is matched character by
character (`matchFold?_spells`), so inside it a character goes on or a word character has just
ended (`within_matchFold?`).

A separator is an ASCII byte that no identifier has.  Nothing is read across one: characters, runs
and keywords in front of it are what they would be at the end of the text (`readHead_separator`,
`run_separator`, `matchWord?_separator`), and looking back from behind it nothing in front of it counts
(`endsWord_separator`).
-/
import PascalSurvey.Proofs.Text.Chars
import PascalSurvey.Proofs.Text.Local
import PascalSurvey.Proofs.Text.Word

namespace PascalSurvey

open Ascii

/-- A byte that is a character of its own and stands in no identifier. -/
def Ascii.isSeparator (b : UInt8) : Bool := b < 0x80 && !isIdentByte b

theorem Ascii.isSeparator_iff {b : UInt8} :
    isSeparator b = true ↔ b < 0x80 ∧ isIdentByte b = false := by
  simp [isSeparator]

theorem Ascii.isSeparator_of_isBlank {b : UInt8} (h : isBlank b = true) : isSeparator b = true := by
  simp only [isBlank, Bool.or_eq_true, beq_iff_eq] at h
  rcases h with (((rfl | rfl) | rfl) | rfl) | rfl <;> decide

namespace Utf8

/-! ### Characters at a separator -/

/-- The last character begins behind the last byte that continues none. -/
theorem last?_append {c : UInt8} (hc : isContinuation c = false) (u v : Text) :
    last? (u ++ c :: v) = last? (u ++ [c]) := by
  have htail (w : Text) : ((u ++ c :: w).take 3).takeWhile isContinuation =
      (u.take 3).takeWhile isContinuation := by
    rw [List.take_append]
    cases 3 - u.length with
    | zero => rw [List.take_zero, List.append_nil]
    | succ n => rw [List.take_succ_cons, Text.takeWhile_before hc]
  have hle : ((u.take 3).takeWhile isContinuation).length ≤ u.length :=
    ((List.takeWhile_sublist _).trans (List.take_sublist 3 u)).length_le
  unfold last?
  simp only [htail, List.drop_append_of_le_length hle]
  cases u.drop ((u.take 3).takeWhile isContinuation).length <;> rfl

/-- A run ends in front of a separator, unless it takes all that stands there. -/
theorem run_separator {c : UInt8} (hc : c < 0x80) (p : Nat → Bool) (x y : Text) :
    run p (x ++ c :: y) =
      if run p x = x.length then x.length + run p (c :: y) else run p x := by
  induction hlen : x.length using Nat.strongRecOn generalizing x with
  | ind n ih =>
    subst hlen
    cases x with
    | nil => simp [run]
    | cons a x =>
      have hlong := readHead_separator hc a x y
      rcases hread : readHead a x with ⟨code, more⟩ | more
      · obtain ⟨hle, -⟩ := readHead_scalar hread
        have hrun {z : Text} (hz : readHead a z = .scalar code more) :
            run p (a :: z) = if p code then more + 1 + run p (z.drop more) else 0 := by
          rw [run, hz]
        rw [List.cons_append, hrun (hlong.trans hread), hrun hread,
          List.drop_append_of_le_length hle]
        have hrest := ih (x.drop more).length (by rw [List.length_drop, List.length_cons]; omega)
          (x.drop more) rfl
        rw [List.length_drop] at hrest
        rw [hrest, List.length_cons]
        cases p code with
        | false => simp
        | true =>
          simp only [if_true]
          split <;> split <;> omega
      · have hrun {z : Text} (hz : readHead a z = .broken more) : run p (a :: z) = 0 := by
          rw [run, hz]
        rw [List.cons_append, hrun (hlong.trans hread), hrun hread]
        simp

end Utf8

namespace Text

variable {w : UInt8} {word char t : Text} {n i : Nat}

/-! ### The characters of a keyword -/

/-- The characters that spell a lower-case letter where case is ignored. -/
inductive Spells (w : UInt8) : Text → Prop
  | letter {b : UInt8} (h : lower b = w) : Spells w [b]
  | longS (h : w = 0x73) : Spells w [0xC5, 0xBF]
  | kelvin (h : w = 0x6B) : Spells w [0xE2, 0x84, 0xAA]

/-- A word is spelled character by character. -/
theorem matchFold?_spells (h : matchFold? (w :: word) t = some n) :
    ∃ char r n', t = char ++ r ∧ Spells w char ∧ matchFold? word r = some n' ∧
      n = char.length + n' := by
  cases t with
  | nil => cases h
  | cons b r =>
    rw [matchFold?_cons] at h
    split at h
    · next hb =>
      obtain ⟨n', hn, rfl⟩ := Option.map_eq_some_iff.mp h
      exact ⟨[b], r, n', rfl, .letter hb, hn, Nat.add_comm ..⟩
    · split at h
      · next hs =>
        obtain ⟨rfl, hc, hw⟩ := hs
        obtain ⟨r, rfl⟩ := cons_of_getElem?_zero hc
        obtain ⟨n', hn, rfl⟩ := Option.map_eq_some_iff.mp h
        exact ⟨_, r, n', rfl, .longS hw, hn, Nat.add_comm ..⟩
      · split at h
        · next hk =>
          obtain ⟨rfl, hc, hd, hw⟩ := hk
          obtain ⟨r, rfl⟩ := cons_cons_of_getElem? hc hd
          obtain ⟨n', hn, rfl⟩ := Option.map_eq_some_iff.mp h
          exact ⟨_, r, n', rfl, .kelvin hw, hn, Nat.add_comm ..⟩
        · cases h

theorem matchFold?_le (h : matchFold? word t = some n) : n ≤ t.length := by
  induction word generalizing t n with
  | nil =>
    rw [matchFold?] at h
    cases h
    exact Nat.zero_le _
  | cons w word ih =>
    obtain ⟨char, r, n, rfl, -, hn, rfl⟩ := matchFold?_spells h
    have := ih hn
    rw [List.length_append]
    omega

theorem matchFold?_of_spells (h : Spells w char) (word r : Text) :
    matchFold? (w :: word) (char ++ r) = (matchFold? word r).map (· + char.length) := by
  cases h with
  | letter hb => rw [List.singleton_append, matchFold?_cons, if_pos hb, List.length_singleton]
  | longS hw =>
    subst hw
    exact (matchFold?_cons _ _ _ _).trans
      ((if_neg (by decide)).trans (if_pos ⟨rfl, rfl, rfl⟩))
  | kelvin hw =>
    subst hw
    exact (matchFold?_cons _ _ _ _).trans
      ((if_neg (by decide)).trans ((if_neg (by simp)).trans (if_pos ⟨rfl, rfl, rfl, rfl⟩)))

/-- The texts that spell a lower-case word where case is ignored. -/
inductive SpellsWord : Text → Text → Prop
  | nil : SpellsWord [] []
  | cons {w : UInt8} {word char t : Text} : Spells w char → SpellsWord word t →
      SpellsWord (w :: word) (char ++ t)

/-- **A word is matched where a spelling of it stands.** -/
theorem matchFold?_eq_some_iff :
    matchFold? word t = some n ↔ ∃ a r, t = a ++ r ∧ SpellsWord word a ∧ n = a.length := by
  induction word generalizing t n with
  | nil =>
    rw [matchFold?]
    constructor
    · rintro ⟨⟩
      exact ⟨[], t, rfl, .nil, rfl⟩
    · rintro ⟨a, r, rfl, ⟨⟩, rfl⟩
      rfl
  | cons w word ih =>
    constructor
    · intro h
      obtain ⟨char, t, n, rfl, hchar, hn, rfl⟩ := matchFold?_spells h
      obtain ⟨a, r, rfl, ha, rfl⟩ := ih.mp hn
      exact ⟨char ++ a, r, by simp, .cons hchar ha, by simp⟩
    · rintro ⟨a, r, rfl, ⟨⟩, rfl⟩
      next char a hchar ha =>
        rw [List.append_assoc, matchFold?_of_spells hchar, ih.mpr ⟨a, r, rfl, ha, rfl⟩,
          Option.map_some, List.length_append, Nat.add_comm]

/-- A letter that is neither `s` nor `k` takes one byte. -/
theorem matchFold?_letter (h : matchFold? (w :: word) t = some n) (hs : w ≠ 0x73) (hk : w ≠ 0x6B) :
    ∃ b r n', t = b :: r ∧ lower b = w ∧ matchFold? word r = some n' := by
  obtain ⟨char, r, n', rfl, hchar, hn, -⟩ := matchFold?_spells h
  cases hchar with
  | @letter b hb => exact ⟨b, r, n', rfl, hb, hn⟩
  | longS hw => exact absurd hw hs
  | kelvin hw => exact absurd hw hk

theorem Spells.last (h : Spells w char) :
    ∃ init b, char = init ++ [b] ∧ (lower b = w ∨ 0x80 ≤ b) := by
  cases h with
  | @letter b h => exact ⟨[], b, rfl, .inl h⟩
  | longS => exact ⟨[0xC5], 0xBF, rfl, .inr (by decide)⟩
  | kelvin => exact ⟨[0xE2, 0x84], 0xAA, rfl, .inr (by decide)⟩

theorem Spells.ne_nil (h : Spells w char) : char ≠ [] := by
  cases h <;> simp

/-- Inside a character stand only bytes beyond ASCII. -/
theorem Spells.inside (h : Spells w char) (hpos : 0 < i) (hlt : i < char.length) :
    ∃ b, char[i]? = some b ∧ 0x80 ≤ b := by
  cases h with
  | letter =>
    rw [List.length_singleton] at hlt
    omega
  | longS =>
    obtain rfl : i = 1 := by
      simp only [List.length_cons, List.length_nil] at hlt
      omega
    exact ⟨0xBF, rfl, by decide⟩
  | kelvin =>
    simp only [List.length_cons, List.length_nil] at hlt
    obtain rfl | rfl : i = 1 ∨ i = 2 := by omega
    · exact ⟨0x84, rfl, by decide⟩
    · exact ⟨0xAA, rfl, by decide⟩

/-- The case variants of a letter are word characters. -/
theorem Spells.endsWord (h : Spells w char) (hw : isLower w = true) (before : Text) :
    endsWord (char.reverse ++ before) = true := by
  cases h with
  | @letter b hb =>
    have hid : isIdentByte b = true := by simp [isIdentByte, isLetter_of_lower hb hw]
    show Text.endsWord (b :: before) = true
    rw [endsWord_ascii (isIdentByte_lt hid), hid]
  | longS =>
    have hlast : Utf8.last? ([0xBF] ++ 0xC5 :: before) = some 0x17F := by
      rw [Utf8.last?_append (by decide)]
      decide +kernel
    rw [show [0xC5, 0xBF].reverse ++ before = [0xBF] ++ 0xC5 :: before from rfl, Text.endsWord,
      hlast, Option.any_some]
    decide +kernel
  | kelvin =>
    have hlast : Utf8.last? ([0xAA, 0x84] ++ 0xE2 :: before) = some 0x212A := by
      rw [Utf8.last?_append (by decide)]
      decide +kernel
    rw [show [0xE2, 0x84, 0xAA].reverse ++ before = [0xAA, 0x84] ++ 0xE2 :: before from rfl,
      Text.endsWord, hlast, Option.any_some]
    decide +kernel

theorem Spells.mem (h : Spells w char) (hw : isLower w = true) {b : UInt8} (hb : b ∈ char) :
    isLetter b = true ∨ 0x80 ≤ b := by
  cases h with
  | letter hlower =>
    rw [List.mem_singleton.mp hb]
    exact .inl (isLetter_of_lower hlower hw)
  | longS =>
    simp only [List.mem_cons, List.not_mem_nil, or_false] at hb
    rcases hb with rfl | rfl <;> exact .inr (by decide)
  | kelvin =>
    simp only [List.mem_cons, List.not_mem_nil, or_false] at hb
    rcases hb with rfl | rfl | rfl <;> exact .inr (by decide)

theorem SpellsWord.mem (h : SpellsWord word t) (hword : ∀ w ∈ word, isLower w = true) {b : UInt8}
    (hb : b ∈ t) : isLetter b = true ∨ 0x80 ≤ b := by
  induction h with
  | nil => cases hb
  | cons hchar _ ih =>
    rcases List.mem_append.mp hb with hb | hb
    · exact hchar.mem (hword _ List.mem_cons_self) hb
    · exact ih (fun c hc => hword c (List.mem_cons_of_mem _ hc)) hb

/-- In ASCII a word is spelled with its own letters. -/
theorem SpellsWord.toLower (h : SpellsWord word t) (ht : ∀ b ∈ t, b < 0x80) : toLower t = word := by
  induction h with
  | nil => rfl
  | @cons w word char t hchar _ ih =>
    rw [Text.toLower, List.map_append, ← Text.toLower, ← Text.toLower,
      ih fun b hb => ht b (List.mem_append_right _ hb)]
    cases hchar with
    | letter hb => rw [← hb]; rfl
    | longS | kelvin => exact absurd (ht _ (List.mem_append_left _ List.mem_cons_self)) (by decide)

/-- No white space stands where a letter is spelled. -/
theorem Spells.run_blank (h : Spells w char) (hw : isLower w = true) (r : Text) :
    Utf8.run isBlankChar (char ++ r) = 0 := by
  cases h with
  | @letter b hb =>
    have hid : isIdentByte b = true := by simp [isIdentByte, isLetter_of_lower hb hw]
    exact Utf8.run_eq_zero (isIdentByte_lt hid) (not_isBlankChar_of_isIdentByte hid) r
  | longS =>
    have hread : Utf8.readHead 0xC5 [0xBF] = .scalar 0x17F 1 := by decide
    exact Utf8.run_cons hread isBlankChar r
  | kelvin =>
    have hread : Utf8.readHead 0xE2 [0x84, 0xAA] = .scalar 0x212A 2 := by decide
    exact Utf8.run_cons hread isBlankChar r

/-- The bytes of a word are letters, or beyond ASCII. -/
theorem mem_take_matchFold? (h : matchFold? word t = some n) (hword : ∀ w ∈ word, isLower w = true)
    {b : UInt8} (hb : b ∈ t.take n) : isLetter b = true ∨ 0x80 ≤ b := by
  obtain ⟨a, r, rfl, ha, rfl⟩ := matchFold?_eq_some_iff.mp h
  rw [List.take_left] at hb
  exact ha.mem hword hb

/-- Inside a word, and at its end, a character goes on or a word character has just ended. -/
theorem within_matchFold? (h : matchFold? word t = some n) (hword : ∀ w ∈ word, isLower w = true)
    (hpos : 0 < i) (hle : i ≤ n) (before : Text) :
    (∃ b, t[i]? = some b ∧ 0x80 ≤ b) ∨ endsWord ((t.take i).reverse ++ before) = true := by
  induction word generalizing t n i before with
  | nil =>
    rw [matchFold?] at h
    cases h
    omega
  | cons w word ih =>
    obtain ⟨char, r, n, rfl, hchar, hn, rfl⟩ := matchFold?_spells h
    rcases Nat.lt_or_ge i char.length with hlt | hge
    · obtain ⟨b, hb, hge⟩ := hchar.inside hpos hlt
      exact .inl ⟨b, by rwa [List.getElem?_append_left hlt], hge⟩
    · obtain ⟨j, rfl⟩ := Nat.exists_eq_add_of_le hge
      rw [List.getElem?_append_right hge, Nat.add_sub_cancel_left, List.take_length_add_append,
        List.reverse_append, List.append_assoc]
      rcases Nat.eq_zero_or_pos j with rfl | hj
      · exact .inr (hchar.endsWord (hword w List.mem_cons_self) before)
      · exact ih hn (fun c hc => hword c (List.mem_cons_of_mem _ hc)) hj (by omega) _

/-- A word ends with its last letter or with a byte beyond ASCII. -/
theorem matchFold?_last (h : matchFold? (word ++ [w]) t = some n) :
    ∃ k b, n = k + 1 ∧ t[k]? = some b ∧ (lower b = w ∨ 0x80 ≤ b) := by
  induction word generalizing t n with
  | nil =>
    obtain ⟨char, r, n, rfl, hchar, hn, rfl⟩ := matchFold?_spells h
    obtain ⟨init, b, rfl, hb⟩ := hchar.last
    rw [matchFold?] at hn
    cases hn
    exact ⟨init.length, b, by simp, by simp, hb⟩
  | cons v word ih =>
    obtain ⟨char, r, n, rfl, -, hn, rfl⟩ := matchFold?_spells h
    obtain ⟨k, b, rfl, hk, hb⟩ := ih hn
    refine ⟨char.length + k, b, by omega, ?_, hb⟩
    rw [List.getElem?_append_right (Nat.le_add_right ..), Nat.add_sub_cancel_left, hk]

/-! ### Words at a separator -/

section
variable {c : UInt8} (hsep : isSeparator c = true)
include hsep

theorem startsWord_separator (x y : Text) : startsWord (x ++ c :: y) = startsWord x := by
  obtain ⟨hc, hid⟩ := isSeparator_iff.mp hsep
  cases x with
  | nil =>
    rw [List.nil_append, startsWord_ascii hc, hid]
    rfl
  | cons a x =>
    simp only [startsWord, Utf8.head?, List.cons_append, Utf8.readHead_separator hc]

/-- In reverse: what stands in front of a separator does not count behind it. -/
theorem endsWord_separator (u v : Text) : endsWord (u ++ c :: v) = endsWord u := by
  obtain ⟨hc, hid⟩ := isSeparator_iff.mp hsep
  have hcont := (Utf8.not_continues_of_lt hc c).1
  have htail : ((u ++ [c]).take 3).takeWhile Utf8.isContinuation =
      (u.take 3).takeWhile Utf8.isContinuation := by
    rw [List.take_append]
    cases 3 - u.length with
    | zero => rw [List.take_zero, List.append_nil]
    | succ n => rw [List.take_succ_cons, takeWhile_before hcont]
  have hle : ((u.take 3).takeWhile Utf8.isContinuation).length ≤ u.length :=
    ((List.takeWhile_sublist _).trans (List.take_sublist 3 u)).length_le
  rw [endsWord, Utf8.last?_append hcont, endsWord]
  unfold Utf8.last?
  simp only [htail, List.drop_append_of_le_length hle]
  generalize (u.take 3).takeWhile Utf8.isContinuation = tail
  cases u.drop tail.length with
  | nil =>
    -- the separator itself is no word character
    simp only [List.nil_append, Utf8.readHead_ascii hc, Option.any_none]
    split
    · rw [Option.any_some, isWordChar_ascii hc, hid]
    · rfl
  | cons a r => rfl

theorem matchFold?_separator (hword : ∀ w ∈ word, isLower w = true) (x y : Text) :
    matchFold? word (x ++ c :: y) = matchFold? word x := by
  obtain ⟨hc, hid⟩ := isSeparator_iff.mp hsep
  have hne {b : UInt8} (hb : 0x80 ≤ b) : c ≠ b := by
    rintro rfl
    exact absurd hc (UInt8.not_lt.mpr hb)
  have h₂ := hne (b := 0xBF) (by decide)
  have h₃ := hne (b := 0x84) (by decide)
  have h₄ := hne (b := 0xAA) (by decide)
  induction word generalizing x with
  | nil => rw [matchFold?, matchFold?]
  | cons w word ih =>
    have ih := ih fun c hc => hword c (List.mem_cons_of_mem _ hc)
    cases x with
    | nil =>
      have hletter : lower c ≠ w := by
        intro h
        simp [isIdentByte, isLetter_of_lower h (hword w List.mem_cons_self)] at hid
      rw [List.nil_append, matchFold?_cons, if_neg hletter, if_neg fun h => hne (by decide) h.1,
        if_neg fun h => hne (by decide) h.1]
      rfl
    | cons b x =>
      rw [List.cons_append, matchFold?_cons, matchFold?_cons, ih]
      -- a character of two or three bytes does not reach the separator
      rcases x with - | ⟨d, - | ⟨e, x⟩⟩
      · simp [h₂, h₃]
      · have hnil := ih []
        rw [List.nil_append] at hnil
        simp [h₄, hnil]
      · have hcons := ih (e :: x)
        rw [List.cons_append] at hcons
        simp [hcons, ih x]

theorem matchWord?_separator (hword : ∀ w ∈ word, isLower w = true) (x y : Text) :
    matchWord? word (x ++ c :: y) = matchWord? word x := by
  rw [matchWord?, matchWord?, matchFold?_separator hsep hword]
  rcases hn : matchFold? word x with - | n
  · rfl
  · have hle := matchFold?_le hn
    simp only [Option.bind_eq_bind, Option.bind_some, List.drop_append_of_le_length hle,
      startsWord_separator hsep]

end

end Text

end PascalSurvey
