/-
PascalSurvey/Proofs/Sql/Retokenize.lean

Reading the tokens of a statement again after some of its words were put in quotes.  `Begins`
says once what a token can be, one constructor for each kind; `tokenAt` computes it
(`begins_tokenAt`, `Begins.tokenAt_eq`), and later proofs take the kinds of tokens from there.

A token is recognised by its own bytes and at most the byte behind it.  Quoting the words
behind a token leaves that byte as it is, or has a double quote where a word began
(`UpToQuote`), and a double quote never goes on with what stands before it: no token takes one
as its next byte unless the token is a quoted name, a literal or a comment, which end where
they ended before (`Begins.requote`).  A word in quotes is a token by itself.

Main result: quoting words, whichever they are, changes those tokens and no other
(`tokenize_requoted`).
-/
import Mathlib.Data.List.Forall2
import Mathlib.Data.List.TakeWhile
import PascalSurvey.Sql.Reserved
import PascalSurvey.Sql.Token
import PascalSurvey.Proofs.Source.Place
import PascalSurvey.Proofs.Text.Boundary
import PascalSurvey.Proofs.Text.Bytes

namespace PascalSurvey.Sql

open Ascii

/-! ### What a token is -/

theorem doubleOperators_eq : doubleOperators =
    [[less, greater], [less, equals], [greater, equals], [bang, equals], [bar, bar],
      [colon, colon]] := by
  decide +kernel

/-- The bytes of a character beyond its first; the beginning of one that is not complete is
read byte by byte. -/
def further : Utf8.Head → Nat
  | .scalar _ more => more
  | .broken _ => 0

/-- The text `b :: r` begins with a token of the given kind, which has `n` bytes beyond the
first. -/
inductive Begins : (b : UInt8) → (r : Text) → TokenKind → (n : Nat) → Prop
  | literal (r : Text) : Begins quote r .literal (literalTail r)
  | quotedName (r : Text) : Begins doubleQuote r .quotedName (throughDoubleQuote r)
  | lineComment (r : Text) : Begins minus (minus :: r) .comment (1 + Source.untilBreak r)
  | blockComment (r : Text) : Begins slash (asterisk :: r) .comment (1 + throughStarSlash r)
  | parameter {c : UInt8} (r : Text) : isIdentStart c = true →
      Begins colon (c :: r) .parameter (1 + (r.takeWhile isWordByte).length)
  | word {b : UInt8} (r : Text) : isIdentStart b = true →
      Begins b r .word (r.takeWhile isWordByte).length
  | number {b : UInt8} (r : Text) : isDigit b = true →
      Begins b r .number (r.takeWhile fun c => isLetter c || isDigit c || c == dot).length
  | space {b : UInt8} (r : Text) : isBlank b = true → Begins b r .space (r.takeWhile isBlank).length
  | operator {b c : UInt8} (r : Text) : [b, c] ∈ doubleOperators → Begins b (c :: r) .punct 1
  /-- A character that is nothing else. -/
  | character {b : UInt8} {r : Text} : b ≠ quote → b ≠ doubleQuote →
      ¬(b = minus ∧ r.head? = some minus) → ¬(b = slash ∧ r.head? = some asterisk) →
      ¬(b = colon ∧ r.head?.any isIdentStart = true) → isIdentStart b = false →
      isDigit b = false → isBlank b = false → b :: r.take 1 ∉ doubleOperators →
      Begins b r .punct (further (Utf8.readHead b r))

theorem isWordByte_of_isIdentStart {b : UInt8} (h : isIdentStart b = true) :
    isWordByte b = true := by
  rw [isWordByte, isIdentStart_isIdentByte h, Bool.true_or]

theorem begins_tokenAt (b : UInt8) (r : Text) : Begins b r (tokenAt b r).1 (tokenAt b r).2 := by
  fun_cases tokenAt b r with
  | case1 hb =>
    subst hb
    exact .literal r
  | case2 _ hb =>
    subst hb
    exact .quotedName r
  | case3 _ _ h =>
    obtain ⟨rfl, hr⟩ := h
    obtain ⟨r, rfl⟩ := List.head?_eq_some_iff.mp hr
    exact .lineComment r
  | case4 _ _ _ h =>
    obtain ⟨rfl, hr⟩ := h
    obtain ⟨r, rfl⟩ := List.head?_eq_some_iff.mp hr
    exact .blockComment r
  | case5 _ _ _ _ h =>
    obtain ⟨rfl, hr⟩ := h
    obtain ⟨c, hc, hstart⟩ := (Option.any_eq_true _ _).mp hr
    obtain ⟨r, rfl⟩ := List.head?_eq_some_iff.mp hc
    have := Begins.parameter r hstart
    simpa [isWordByte_of_isIdentStart hstart, Nat.add_comm 1] using this
  | case6 _ _ _ _ _ h => exact .word r h
  | case7 _ _ _ _ _ _ h => exact .number r h
  | case8 _ _ _ _ _ _ _ h => exact .space r h
  | case9 _ _ _ _ _ _ _ _ h =>
    cases r with
    | nil => simp [doubleOperators_eq] at h
    | cons c r => exact .operator r (by simpa using h)
  | case10 h₁ h₂ h₃ h₄ h₅ h₆ h₇ h₈ h₉ code more hread =>
    have := Begins.character h₁ h₂ h₃ h₄ h₅ (by simpa using h₆) (by simpa using h₇)
      (by simpa using h₈) (by simpa using h₉)
    rwa [hread] at this
  | case11 h₁ h₂ h₃ h₄ h₅ h₆ h₇ h₈ h₉ more hread =>
    have := Begins.character h₁ h₂ h₃ h₄ h₅ (by simpa using h₆) (by simpa using h₇)
      (by simpa using h₈) (by simpa using h₉)
    rwa [hread] at this

theorem not_isIdentStart_of_isDigit {b : UInt8} (h : isDigit b = true) :
    isIdentStart b = false := by
  simp only [isDigit, isIdentStart, isLetter, isUpper, isLower, underscore, Bool.and_eq_true,
    decide_eq_true_eq, Bool.or_eq_false_iff, Bool.and_eq_false_iff, decide_eq_false_iff_not,
    beq_eq_false_iff_ne, UInt8.le_iff_toNat_le, ne_eq, ← UInt8.toNat_inj, UInt8.reduceToNat] at h ⊢
  omega

/-- **A text begins with one token.** -/
theorem Begins.tokenAt_eq {b : UInt8} {r : Text} {kind : TokenKind} {n : Nat}
    (h : Begins b r kind n) : tokenAt b r = (kind, n) := by
  cases h with
  | literal r => rfl
  | quotedName r => rfl
  | lineComment r => rfl
  | blockComment r => rfl
  | parameter r hc =>
    rw [tokenAt, if_neg (by decide), if_neg (by decide), if_neg (fun h => absurd h.1 (by decide)),
      if_neg (fun h => absurd h.1 (by decide)), if_pos ⟨rfl, hc⟩,
      List.takeWhile_cons_of_pos (isWordByte_of_isIdentStart hc), List.length_cons, Nat.add_comm]
  | word r hb =>
    have hne {c : UInt8} (hc : isIdentStart c = false) : b ≠ c := ne_of_class hb hc
    rw [tokenAt, if_neg (hne (by decide)), if_neg (hne (by decide)),
      if_neg (fun h => hne (by decide) h.1), if_neg (fun h => hne (by decide) h.1),
      if_neg (fun h => hne (by decide) h.1), if_pos hb]
  | number r hb =>
    have hne {c : UInt8} (hc : isDigit c = false) : b ≠ c := ne_of_class hb hc
    rw [tokenAt, if_neg (hne (by decide)), if_neg (hne (by decide)),
      if_neg (fun h => hne (by decide) h.1), if_neg (fun h => hne (by decide) h.1),
      if_neg (fun h => hne (by decide) h.1), if_neg (by simp [not_isIdentStart_of_isDigit hb]),
      if_pos hb]
  | space r hb =>
    simp only [isBlank, Bool.or_eq_true, beq_iff_eq] at hb
    rcases hb with (((rfl | rfl) | rfl) | rfl) | rfl <;> rfl
  | operator r h =>
    simp only [doubleOperators_eq, List.mem_cons, List.cons.injEq, List.not_mem_nil, and_true,
      or_false] at h
    rcases h with ⟨rfl, rfl⟩ | ⟨rfl, rfl⟩ | ⟨rfl, rfl⟩ | ⟨rfl, rfl⟩ | ⟨rfl, rfl⟩ | ⟨rfl, rfl⟩ <;>
      rfl
  | character h₁ h₂ h₃ h₄ h₅ h₆ h₇ h₈ h₉ =>
    rw [tokenAt, if_neg h₁, if_neg h₂, if_neg h₃, if_neg h₄, if_neg h₅, if_neg (by simp [h₆]),
      if_neg (by simp [h₇]), if_neg (by simp [h₈]), if_neg (by simpa using h₉)]
    rcases Utf8.readHead b r with ⟨code, more⟩ | more <;> rfl

/-! ### Texts behind a token -/

/-- Two texts are the same up to the beginning of a word in the first, where the second has a
double quote, or they are the same. -/
inductive UpToQuote : Text → Text → Prop
  | nil : UpToQuote [] []
  | same (b : UInt8) {r r' : Text} : UpToQuote r r' → UpToQuote (b :: r) (b :: r')
  | word {c : UInt8} (r r' : Text) : isIdentStart c = true → UpToQuote (c :: r) (doubleQuote :: r')

theorem UpToQuote.append {r r' : Text} (x : Text) (h : UpToQuote r r') :
    UpToQuote (x ++ r) (x ++ r') := by
  induction x with
  | nil => exact h
  | cons b x ih => exact .same b ih

theorem UpToQuote.head? {r r' : Text} (h : UpToQuote r r') :
    r'.head? = r.head? ∨ r.head?.any isIdentStart = true ∧ r'.head? = some doubleQuote := by
  cases h with
  | nil => exact .inl rfl
  | same b h => exact .inl rfl
  | word r r' hc => exact .inr ⟨hc, rfl⟩

/-- Where the first text does not go on with `c`, the second does not. -/
theorem UpToQuote.head?_ne {r r' : Text} {c : UInt8} (h : UpToQuote r r') (hc : c ≠ doubleQuote)
    (hr : r.head? ≠ some c) : r'.head? ≠ some c := by
  rcases h.head? with heq | ⟨-, heq⟩
  · rwa [heq]
  · rw [heq]
    simpa using hc.symm

/-- Where the first text does not go on with a word, the second does not. -/
theorem UpToQuote.head?_any {r r' : Text} (h : UpToQuote r r')
    (hr : r.head?.any isIdentStart = false) : r'.head?.any isIdentStart = false := by
  rcases h.head? with heq | ⟨hstart, -⟩
  · rwa [heq]
  · rw [hstart] at hr
    cases hr

theorem UpToQuote.cons {c : UInt8} {r r' : Text} (h : UpToQuote (c :: r) r')
    (hc : isIdentStart c = false) : ∃ r'', r' = c :: r'' := by
  cases h with
  | same _ h => exact ⟨_, rfl⟩
  | word _ r' hstart =>
    rw [hstart] at hc
    cases hc

theorem UpToQuote.eq_nil {r' : Text} (h : UpToQuote [] r') : r' = [] := by
  cases h
  rfl

/-- A run ends where it ended. -/
theorem takeWhile_requote {p : UInt8 → Bool} (hp : p doubleQuote = false) {r r' : Text}
    (h : UpToQuote (r.drop (r.takeWhile p).length) r') :
    ((r.take (r.takeWhile p).length ++ r').takeWhile p).length = (r.takeWhile p).length := by
  induction r with
  | nil => rw [h.eq_nil]; rfl
  | cons b r ih =>
    cases hb : p b with
    | true =>
      rw [List.takeWhile_cons_of_pos hb, List.length_cons, List.drop_succ_cons] at h
      rw [List.takeWhile_cons_of_pos hb, List.length_cons, List.take_succ_cons, List.cons_append,
        List.takeWhile_cons_of_pos hb, List.length_cons, ih h]
    | false =>
      rw [List.takeWhile_cons_of_neg (by simp [hb]), List.length_nil, List.drop_zero] at h
      rw [List.takeWhile_cons_of_neg (by simp [hb]), List.length_nil, List.take_zero,
        List.nil_append]
      cases h with
      | same _ h => rw [List.takeWhile_cons_of_neg (by simp [hb]), List.length_nil]
      | word _ r' hc => rw [List.takeWhile_cons_of_neg (by simp [hp]), List.length_nil]

theorem literalTail_requote {r r' : Text} (h : UpToQuote (r.drop (literalTail r)) r') :
    literalTail (r.take (literalTail r) ++ r') = literalTail r := by
  fun_induction literalTail r with
  | case1 => rw [h.eq_nil]; rfl
  | case2 r ih =>
    rw [Nat.add_comm 2, List.drop_succ_cons, List.drop_succ_cons] at h
    rw [Nat.add_comm 2, List.take_succ_cons, List.take_succ_cons, List.cons_append,
      List.cons_append, literalTail, ih h, Nat.add_comm 2]
  | case3 r hr =>
    -- the byte behind the closing quote is no quote
    rw [List.drop_succ_cons, List.drop_zero] at h
    rw [List.take_succ_cons, List.take_zero, List.singleton_append, literalTail]
    intro r'' hr''
    refine h.head?_ne (c := quote) (by decide) ?_ (by rw [hr'']; rfl)
    intro hhead
    obtain ⟨r₁, hr₁⟩ := List.head?_eq_some_iff.mp hhead
    exact hr r₁ hr₁
  | case4 b r _ hquote ih =>
    rw [Nat.add_comm 1, List.drop_succ_cons] at h
    rw [Nat.add_comm 1, List.take_succ_cons, List.cons_append, literalTail, ih h, Nat.add_comm 1]
    · rintro r' rfl _
      exact hquote rfl
    · exact hquote

theorem throughDoubleQuote_requote {r r' : Text}
    (h : UpToQuote (r.drop (throughDoubleQuote r)) r') :
    throughDoubleQuote (r.take (throughDoubleQuote r) ++ r') = throughDoubleQuote r := by
  fun_induction throughDoubleQuote r with
  | case1 => rw [h.eq_nil]; rfl
  | case2 r => rfl
  | case3 b r hb ih =>
    rw [Nat.add_comm 1, List.drop_succ_cons] at h
    rw [Nat.add_comm 1, List.take_succ_cons, List.cons_append, throughDoubleQuote, ih h,
      Nat.add_comm 1]
    exact hb

theorem untilBreak_requote {r r' : Text} (h : UpToQuote (r.drop (Source.untilBreak r)) r') :
    Source.untilBreak (r.take (Source.untilBreak r) ++ r') = Source.untilBreak r := by
  fun_induction Source.untilBreak r with
  | case1 => rw [h.eq_nil]; rfl
  | case2 r =>
    obtain ⟨r'', rfl⟩ := h.cons (by decide)
    rfl
  | case3 b r hb ih =>
    rw [Nat.add_comm 1, List.drop_succ_cons] at h
    rw [Nat.add_comm 1, List.take_succ_cons, List.cons_append, Source.untilBreak, ih h,
      Nat.add_comm 1]
    exact hb

theorem throughStarSlash_pos (b : UInt8) (r : Text) : 0 < throughStarSlash (b :: r) := by
  unfold throughStarSlash
  split
  · next h => cases h
  · exact Nat.two_pos
  · omega

theorem throughStarSlash_requote {r r' : Text} (h : UpToQuote (r.drop (throughStarSlash r)) r') :
    throughStarSlash (r.take (throughStarSlash r) ++ r') = throughStarSlash r := by
  fun_induction throughStarSlash r with
  | case1 => rw [h.eq_nil]; rfl
  | case2 r => rfl
  | case3 b r hb ih =>
    rw [Nat.add_comm 1, List.drop_succ_cons] at h
    rw [Nat.add_comm 1, List.take_succ_cons, List.cons_append, throughStarSlash, ih h,
      Nat.add_comm 1]
    -- no pair is closed that was not closed: the byte behind `b` is that of the text
    intro r'' hstar hr''
    cases r with
    | nil =>
      rw [h.eq_nil] at hr''
      cases hr''
    | cons c r =>
      obtain ⟨k, hk⟩ := Nat.exists_eq_add_of_le' (throughStarSlash_pos c r)
      rw [hk, List.take_succ_cons, List.cons_append] at hr''
      exact hb r hstar (by rw [(List.cons.inj hr'').1])

/-- The character at the head of a text does not reach into a word behind it. -/
theorem readHead_requote {r r' : Text} (b : UInt8) (h : UpToQuote r r') :
    Utf8.readHead b r' = Utf8.readHead b r := by
  have hquote := Utf8.not_continues_of_lt (c := doubleQuote) (by decide) b
  have hword {c : UInt8} (hc : isIdentStart c = true) :=
    Utf8.not_continues_of_lt (isIdentByte_lt (isIdentStart_isIdentByte hc)) b
  cases h with
  | nil => rfl
  | word r r' hc =>
    simp only [Utf8.readHead, hquote, hword hc, Bool.false_eq_true, if_false]
  | same c h => cases h with
    | nil => rfl
    | word r r' hc => simp only [Utf8.readHead, hquote, hword hc, Bool.false_eq_true, if_false]
    | same d h => cases h with
      | nil => rfl
      | word r r' hc => simp only [Utf8.readHead, hquote, hword hc, Bool.false_eq_true, if_false]
      | same e h => rfl

theorem not_mem_doubleOperators (b : UInt8) : [b, doubleQuote] ∉ doubleOperators := by
  simp only [doubleOperators_eq, List.mem_cons, List.cons.injEq, List.not_mem_nil, and_true,
    or_false]
  rintro (⟨-, h⟩ | ⟨-, h⟩ | ⟨-, h⟩ | ⟨-, h⟩ | ⟨-, h⟩ | ⟨-, h⟩) <;> exact absurd h (by decide)

/-- **A token stays what it is when words behind it are put in quotes.** -/
theorem Begins.requote {b : UInt8} {r r' : Text} {kind : TokenKind} {n : Nat}
    (h : Begins b r kind n) (hr : UpToQuote (r.drop n) r') : Begins b (r.take n ++ r') kind n := by
  cases h with
  | literal r =>
    have := Begins.literal (r.take (literalTail r) ++ r')
    rwa [literalTail_requote hr] at this
  | quotedName r =>
    have := Begins.quotedName (r.take (throughDoubleQuote r) ++ r')
    rwa [throughDoubleQuote_requote hr] at this
  | lineComment r =>
    rw [Nat.add_comm 1, List.drop_succ_cons] at hr
    have := Begins.lineComment (r.take (Source.untilBreak r) ++ r')
    rw [untilBreak_requote hr] at this
    rwa [Nat.add_comm 1, List.take_succ_cons, Nat.add_comm _ 1]
  | blockComment r =>
    rw [Nat.add_comm 1, List.drop_succ_cons] at hr
    have := Begins.blockComment (r.take (throughStarSlash r) ++ r')
    rw [throughStarSlash_requote hr] at this
    rwa [Nat.add_comm 1, List.take_succ_cons, Nat.add_comm _ 1]
  | parameter r hc =>
    rw [Nat.add_comm 1, List.drop_succ_cons] at hr
    have := Begins.parameter (r.take (r.takeWhile isWordByte).length ++ r') hc
    rw [takeWhile_requote (by decide) hr] at this
    rwa [Nat.add_comm 1, List.take_succ_cons, Nat.add_comm _ 1]
  | word r hb =>
    have := Begins.word (r.take (r.takeWhile isWordByte).length ++ r') hb
    rwa [takeWhile_requote (by decide) hr] at this
  | number r hb =>
    have := Begins.number
      (r.take (r.takeWhile fun c => isLetter c || isDigit c || c == dot).length ++ r') hb
    rwa [takeWhile_requote (by decide) hr] at this
  | space r hb =>
    have := Begins.space (r.take (r.takeWhile isBlank).length ++ r') hb
    rwa [takeWhile_requote (by decide) hr] at this
  | operator r hop => exact .operator r' hop
  | character h₁ h₂ h₃ h₄ h₅ h₆ h₇ h₈ h₉ =>
    have hup := hr.append (r.take (further (Utf8.readHead b r)))
    rw [List.take_append_drop] at hup
    suffices h : Begins b (r.take (further (Utf8.readHead b r)) ++ r') .punct
        (further (Utf8.readHead b (r.take (further (Utf8.readHead b r)) ++ r'))) by
      rwa [readHead_requote b hup] at h
    refine .character h₁ h₂ ?_ ?_ ?_ h₆ h₇ h₈ ?_
    · rintro ⟨hb, hhead⟩
      exact hup.head?_ne (by decide) (fun h => h₃ ⟨hb, h⟩) hhead
    · rintro ⟨hb, hhead⟩
      exact hup.head?_ne (by decide) (fun h => h₄ ⟨hb, h⟩) hhead
    · rintro ⟨hb, hhead⟩
      have hstart : r.head?.any isIdentStart = false :=
        Bool.eq_false_iff.mpr fun h => h₅ ⟨hb, h⟩
      rw [hup.head?_any hstart] at hhead
      cases hhead
    · rw [List.take_one]
      rcases hup.head? with heq | ⟨-, heq⟩
      · rwa [heq, ← List.take_one]
      · rw [heq]
        exact not_mem_doubleOperators b

/-! ### Statements token by token -/

theorem tokenize_of_begins {b : UInt8} {r : Text} {kind : TokenKind} {n : Nat}
    (h : Begins b r kind n) :
    tokenize (b :: r) = ⟨kind, b :: r.take n⟩ :: tokenize (r.drop n) := by
  rw [tokenize, h.tokenAt_eq]

/-- Induction along the tokens of a statement. -/
theorem tokenwise {motive : Text → Prop} (nil : motive [])
    (token : ∀ b r kind n, Begins b r kind n → motive (r.drop n) → motive (b :: r)) (t : Text) :
    motive t := by
  fun_induction tokenize t with
  | case1 => exact nil
  | case2 b r kind n heq ih =>
    have := begins_tokenAt b r
    rw [heq] at this
    exact token b r kind n this ih

theorem literalTail_le (t : Text) : literalTail t ≤ t.length := by
  fun_induction literalTail t <;> simp <;> omega

theorem throughDoubleQuote_le (t : Text) : throughDoubleQuote t ≤ t.length := by
  fun_induction throughDoubleQuote t with
  | case1 => exact Nat.le_refl 0
  | case2 r => simp
  | case3 b r _ ih => simp only [List.length_cons]; omega

theorem throughStarSlash_le (t : Text) : throughStarSlash t ≤ t.length := by
  fun_induction throughStarSlash t with
  | case1 => exact Nat.le_refl 0
  | case2 r => simp
  | case3 b r _ ih => simp only [List.length_cons]; omega

theorem length_takeWhile_le (p : UInt8 → Bool) (t : Text) : (t.takeWhile p).length ≤ t.length :=
  (List.takeWhile_sublist p).length_le

/-- A token has no bytes beyond its statement. -/
theorem Begins.le {b : UInt8} {r : Text} {kind : TokenKind} {n : Nat} (h : Begins b r kind n) :
    n ≤ r.length := by
  cases h with
  | literal r => exact literalTail_le r
  | quotedName r => exact throughDoubleQuote_le r
  | lineComment r =>
    have := Source.untilBreak_le r
    rw [List.length_cons]
    omega
  | blockComment r =>
    have := throughStarSlash_le r
    rw [List.length_cons]
    omega
  | parameter r =>
    have := length_takeWhile_le isWordByte r
    rw [List.length_cons]
    omega
  | word r | number r | space r => exact length_takeWhile_le _ r
  | operator r =>
    rw [List.length_cons]
    omega
  | character =>
    rcases hread : Utf8.readHead b r with ⟨code, more⟩ | more
    · exact (Utf8.readHead_scalar hread).1
    · exact Nat.zero_le _

/-! ### Words in quotes -/

/-- A token `u` that stands in place of `t`: the same, or `t` is a word with the property `P`
and `u` is that word in quotes. -/
inductive Requoted (P : Text → Prop) (t : Token) : (u : Token) → Prop
  | same : Requoted P t t
  | quoted : t.kind = .word → P t.text → Requoted P t ⟨.quotedName, quoted t.text⟩

theorem throughDoubleQuote_append {w : Text} (hw : ∀ b ∈ w, b ≠ doubleQuote) (r : Text) :
    throughDoubleQuote (w ++ doubleQuote :: r) = w.length + 1 := by
  induction w with
  | nil => rfl
  | cons b w ih =>
    rw [List.cons_append, throughDoubleQuote, ih fun c hc => hw c (List.mem_cons_of_mem _ hc),
      List.length_cons, Nat.add_comm]
    exact hw b List.mem_cons_self

theorem isWordByte_upper {b : UInt8} (h : isWordByte b = true) : isWordByte (upper b) = true := by
  rw [upper]
  split
  · next hb =>
    have hupper : isUpper (b - 0x20) = true := by
      simp only [isLower, isUpper, Bool.and_eq_true, decide_eq_true_eq, UInt8.le_iff_toNat_le,
        UInt8.toNat_sub, UInt8.reduceToNat] at hb ⊢
      omega
    simp [isWordByte, isIdentByte, isLetter, hupper]
  · exact h

theorem mem_take_takeWhile {p : UInt8 → Bool} {b : UInt8} {r : Text}
    (h : b ∈ r.take (r.takeWhile p).length) : p b = true := by
  rw [← List.prefix_iff_eq_take.mp (List.takeWhile_prefix p)] at h
  exact List.mem_takeWhile_imp h

/-- The bytes of a word are word bytes. -/
theorem Begins.isWordByte_of_mem {b c : UInt8} {r : Text} {n : Nat} (h : Begins b r .word n)
    (hc : c ∈ b :: r.take n) : isWordByte c = true := by
  cases h with
  | word r hb =>
    rcases List.mem_cons.mp hc with rfl | hc
    · exact isWordByte_of_isIdentStart hb
    · exact mem_take_takeWhile hc

/-- A word in quotes is a quoted name. -/
theorem begins_quoted {w : Text} (hw : ∀ b ∈ w, isWordByte b = true) (r : Text) :
    Begins doubleQuote (Text.toUpper w ++ [doubleQuote] ++ r) .quotedName (w.length + 1) := by
  have hupper : ∀ b ∈ Text.toUpper w, b ≠ doubleQuote := by
    intro b hb
    obtain ⟨c, hc, rfl⟩ := List.mem_map.mp hb
    exact ne_of_class (isWordByte_upper (hw c hc)) (by decide)
  have := Begins.quotedName (Text.toUpper w ++ doubleQuote :: r)
  rw [throughDoubleQuote_append hupper, Text.toUpper, List.length_map] at this
  rwa [List.append_assoc]

/-- **Main.**  If words of a statement are put in quotes, the tokens of the new statement are
those of the old one with the words in quotes in their places. -/
theorem tokenize_requoted {P : Text → Prop} {t : Text} {us : List Token}
    (h : List.Forall₂ (Requoted P) (tokenize t) us) :
    tokenize (us.flatMap Token.text) = us ∧ UpToQuote t (us.flatMap Token.text) := by
  -- `UpToQuote` is what the tokens before need to know of those behind them
  induction t using tokenwise generalizing us with
  | nil =>
    rw [tokenize] at h
    cases h
    exact ⟨by rw [List.flatMap_nil, tokenize], .nil⟩
  | token b r kind n hb ih =>
    rw [tokenize_of_begins hb] at h
    cases h with
    | @cons _ u _ us hu hus =>
      obtain ⟨htok, hup⟩ := ih hus
      cases hu with
      | same =>
        have hlen : (r.take n).length = n := by rw [List.length_take, Nat.min_eq_left hb.le]
        rw [List.flatMap_cons, List.cons_append]
        constructor
        · rw [tokenize_of_begins (hb.requote hup), List.take_left' hlen, List.drop_left' hlen, htok]
        · have := hup.append (b :: r.take n)
          rwa [List.cons_append, List.take_append_drop] at this
      | quoted hword hP =>
        obtain rfl : kind = .word := hword
        have hbytes : ∀ c ∈ b :: r.take n, isWordByte c = true := fun c => hb.isWordByte_of_mem
        have hlen : (Text.toUpper (b :: r.take n) ++ [doubleQuote]).length =
            (b :: r.take n).length + 1 := by simp [Text.toUpper]
        have htokens : tokenize (doubleQuote :: (Text.toUpper (b :: r.take n) ++ [doubleQuote] ++
            us.flatMap Token.text)) = ⟨.quotedName, quoted (b :: r.take n)⟩ :: us := by
          rw [tokenize_of_begins (begins_quoted hbytes _), List.take_left' hlen,
            List.drop_left' hlen, htok]
          rfl
        refine ⟨htokens, ?_⟩
        cases hb with
        | word r hstart => exact .word r _ hstart

end PascalSurvey.Sql
