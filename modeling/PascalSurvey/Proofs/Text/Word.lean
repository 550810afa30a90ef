/-
PascalSurvey/Proofs/Text/Word.lean

Whole words.  A stretch of a text is a whole word if it consists of word characters and none
stands right before or right behind it (`WholeWord`).  In ASCII the word characters are the
identifier bytes (`isWordChar_ascii`), so a maximal run of identifier bytes is a whole word
exactly if no word character beyond ASCII touches it (`wholeWord_iff`).

White space is no word character (`not_isWordChar_of_isBlankChar`).  Beyond ASCII this is a fact
about the tables, for which their ranges are compared and not their code points.
-/
import PascalSurvey.Proofs.Text.Boundary
import PascalSurvey.Proofs.Text.Bytes
import PascalSurvey.Text.WordChar

namespace PascalSurvey

open Ascii

theorem isWordChar_ascii {b : UInt8} (hb : b < 0x80) : isWordChar b.toNat = isIdentByte b := by
  have hlt : b.toNat < 0x80 := UInt8.lt_iff_toNat_lt.mp hb
  simp [isWordChar, isAsciiWordChar, hlt]

theorem isWordChar_of_isIdentByte {b : UInt8} (h : isIdentByte b = true) :
    isWordChar b.toNat = true := by
  rw [isWordChar_ascii (isIdentByte_lt h), h]

/-! ### White space -/

namespace Unicode

/-- Two lists of ranges have no code point in common. -/
def apart (rs rs' : List (Nat × Nat)) : Bool :=
  rs.all fun r => rs'.all fun r' => Nat.blt r.2 r'.1 || Nat.blt r'.2 r.1

theorem not_inRanges_of_apart {rs rs' : List (Nat × Nat)} {c : Nat} (h : apart rs rs' = true)
    (hc : inRanges c rs = true) : inRanges c rs' = false := by
  obtain ⟨r, hr, hin⟩ := List.any_eq_true.mp hc
  rw [Bool.eq_false_iff]
  intro hc'
  obtain ⟨r', hr', hin'⟩ := List.any_eq_true.mp hc'
  have hlt := List.all_eq_true.mp (List.all_eq_true.mp h r hr) r' hr'
  simp only [Bool.and_eq_true, decide_eq_true_eq, Bool.or_eq_true, Nat.blt_eq] at hin hin' hlt
  omega

theorem inRanges_append (c : Nat) (rs rs' : List (Nat × Nat)) :
    inRanges c (rs ++ rs') = (inRanges c rs || inRanges c rs') := List.any_append

/-- The white space beyond ASCII. -/
def blanks : List (Nat × Nat) := [
  (0x85, 0x85), (0xA0, 0xA0), (0x1680, 0x1680), (0x2000, 0x200A), (0x2028, 0x2029),
  (0x202F, 0x202F), (0x205F, 0x205F), (0x3000, 0x3000)]

/-- The word characters, with the join controls. -/
def words : List (Nat × Nat) :=
  alphabetic ++ nonAlphabeticMarks ++ decimalDigits ++ connectors ++ [(0x200C, 0x200D)]

theorem apart_blanks_words : apart blanks words = true := by decide +kernel

theorem inRanges_blanks {c : Nat} (hc : ¬c < 0x80) (h : isBlankChar c = true) :
    inRanges c blanks = true := by
  simp only [isBlankChar, Bool.or_eq_true, Bool.and_eq_true, decide_eq_true_eq, beq_iff_eq] at h
  simp only [inRanges, blanks, List.any_cons, List.any_nil, Bool.or_false, Bool.or_eq_true,
    Bool.and_eq_true, decide_eq_true_eq]
  omega

theorem inRanges_words {c : Nat} (hc : ¬c < 0x80) (h : isWordChar c = true) :
    inRanges c words = true := by
  rw [isWordChar, if_neg hc] at h
  rw [words, inRanges_append, inRanges_append, inRanges_append, inRanges_append]
  simp only [Bool.or_eq_true, beq_iff_eq] at h ⊢
  rcases h with (h | rfl) | rfl
  · exact .inl h
  · exact .inr rfl
  · exact .inr rfl

end Unicode

theorem not_isWordChar_of_isBlankChar {c : Nat} (h : isBlankChar c = true) :
    isWordChar c = false := by
  by_cases hascii : c < 0x80
  · have hall : ∀ c < 0x80, isBlankChar c = true → isWordChar c = false := by decide +kernel
    exact hall c hascii h
  · rw [Bool.eq_false_iff]
    intro hword
    have hno := Unicode.not_inRanges_of_apart Unicode.apart_blanks_words
      (Unicode.inRanges_blanks hascii h)
    rw [Unicode.inRanges_words hascii hword] at hno
    cases hno

namespace Text

/-- The stretch of `t` from `p` to `q` is a maximal run of word characters, and not empty. -/
structure WholeWord (t : Text) (p q : Nat) : Prop where
  lt : p < q
  le : q ≤ t.length
  /-- All its characters are word characters. -/
  chars : wordRun (slice t p q) = q - p
  /-- No word character ends where it begins. -/
  before : endsWord (t.take p).reverse = false
  /-- No word character begins where it ends. -/
  after : startsWord (t.drop q) = false

/-- A word character beyond ASCII stands right before or right behind the stretch of `t` from
`p` to `q`. -/
def Touched (t : Text) (p q : Nat) : Prop :=
  (∃ b ∈ (t.take p).reverse.head?, 0x80 ≤ b ∧ endsWord (t.take p).reverse = true) ∨
    ∃ b ∈ (t.drop q).head?, 0x80 ≤ b ∧ startsWord (t.drop q) = true

/-! ### Words at an ASCII byte -/

theorem startsWord_ascii {b : UInt8} (hb : b < 0x80) (r : Text) :
    startsWord (b :: r) = isIdentByte b := by
  rw [← isWordChar_ascii hb]
  simp [startsWord, Utf8.head?, Utf8.readHead_ascii hb]

theorem endsWord_ascii {b : UInt8} (hb : b < 0x80) (r : Text) :
    endsWord (b :: r) = isIdentByte b := by
  rw [← isWordChar_ascii hb]
  have hcont : Utf8.isContinuation b = false := (Utf8.not_continues_of_lt hb b).1
  simp [endsWord, Utf8.last?, hcont, Utf8.readHead_ascii hb]

/-- A word character that stands where no identifier byte does is beyond ASCII. -/
theorem beyond_of_word {f : Text → Bool} (hnil : f [] = false)
    (hf : ∀ {b : UInt8}, b < 0x80 → ∀ r, f (b :: r) = isIdentByte b) {t : Text}
    (ht : t.head?.any isIdentByte = false) :
    f t = true ↔ ∃ b ∈ t.head?, 0x80 ≤ b ∧ f t = true := by
  constructor
  · intro h
    cases t with
    | nil =>
      rw [hnil] at h
      cases h
    | cons b r =>
      refine ⟨b, rfl, ?_, h⟩
      rcases UInt8.lt_or_le b 0x80 with hascii | hge
      · rw [hf hascii, show isIdentByte b = false from ht] at h
        cases h
      · exact hge
  · rintro ⟨-, -, -, h⟩
    exact h

/-- A maximal run of identifier bytes is a whole word exactly if no word character beyond ASCII
touches it. -/
theorem wholeWord_iff {t : Text} {p q : Nat} (hpq : p < q) (hq : q ≤ t.length)
    (hchars : ∀ b ∈ slice t p q, isIdentByte b = true)
    (hbefore : (t.take p).reverse.head?.any isIdentByte = false)
    (hafter : (t.drop q).head?.any isIdentByte = false) :
    WholeWord t p q ↔ ¬Touched t p q := by
  have hrun : wordRun (slice t p q) = q - p := by
    have h := Utf8.run_append (p := isWordChar)
      (fun b hb => ⟨isIdentByte_lt (hchars b hb), isWordChar_of_isIdentByte (hchars b hb)⟩) []
    rw [List.append_nil] at h
    rw [wordRun, h, length_slice hq, Utf8.run, Nat.add_zero]
  have hends := beyond_of_word (f := endsWord) rfl endsWord_ascii hbefore
  have hstarts := beyond_of_word (f := startsWord) rfl startsWord_ascii hafter
  unfold Touched
  rw [← hends, ← hstarts, not_or, Bool.not_eq_true, Bool.not_eq_true]
  constructor
  · intro h
    exact ⟨h.before, h.after⟩
  · rintro ⟨hb, ha⟩
    exact ⟨hpq, hq, hrun, hb, ha⟩

end Text
end PascalSurvey
