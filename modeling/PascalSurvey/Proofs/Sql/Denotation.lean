/-
PascalSurvey/Proofs/Sql/Denotation.lean

Which texts are string constants, and what they stand for.  A constant is put together from
blanks, quoted strings and character codes (`Denotes`).  The reader goes from one part to the
next and decides where a quoted string ends by the last byte it took, so it also takes a string
that was left open if its last two bytes are a doubled quote.  `Denotes` has a constructor for
these strings too, which its first argument switches on or off.

Two facts carry the main result.  No part begins with a digit, so a code takes all the digits
that stand behind it (`Denotes.no_digit`).  A closed string has an even number of quotes and one
that is left open an odd number, and no string goes on beyond its line, so the lines of a text
show whether a string was left open (`EvenQuotes`).

Main result: the reader accepts the constants and the texts with strings left open, and the
constants are those of them that have an even number of quotes on every line
(`parseLiteral?_eq_some_iff`).
-/
import PascalSurvey.Proofs.Path.Join
import PascalSurvey.Proofs.Sql.Constant

namespace PascalSurvey.Sql

open Ascii

/-! ### Constants -/

/-- The digits of a character code and its number, which fits in 32 bits. -/
inductive Coded : Text → Nat → Prop
  | decimal {ds : Text} : ds ≠ [] → (∀ b ∈ ds, isDigit b = true) →
      Text.digitsValue 10 ds < Bound.word32 → Coded ds (Text.digitsValue 10 ds)
  | hexadecimal {ds : Text} : ds ≠ [] → (∀ b ∈ ds, isHexDigit b = true) →
      Text.digitsValue 16 ds < Bound.word32 → Coded (dollar :: ds) (Text.digitsValue 16 ds)

/-- The text is at its end or at the end of a line. -/
def AtLineEnd (t : Text) : Prop := t[0]? = none ∨ t[0]? = some newline

/-- A text is a string constant that stands for another text.  If `lax` is set, a string that
ends with a doubled quote may lack its closing quote at the end of a line. -/
inductive Denotes (lax : Bool) : Text → Text → Prop
  | nil : Denotes lax [] []
  | blank {b : UInt8} {t v : Text} : isBlank b = true → Denotes lax t v → Denotes lax (b :: t) v
  | string {s t v : Text} : newline ∉ s → t[0]? ≠ some quote → Denotes lax t v →
      Denotes lax (constant s ++ t) (s ++ v)
  | code {c t v : Text} {n : Nat} : Coded c n → Denotes lax t v →
      Denotes lax (numberSign :: (c ++ t)) (codeText n ++ v)
  | unclosed {s t v : Text} : lax = true → newline ∉ s → AtLineEnd t → Denotes lax t v →
      Denotes lax (quote :: (doubled (s ++ [quote]) ++ t)) (s ++ [quote] ++ v)

/-- Every constant is one with strings that may be left open. -/
theorem Denotes.lax {t v : Text} (h : Denotes false t v) : Denotes true t v := by
  induction h with
  | nil => exact .nil
  | blank hb _ ih => exact .blank hb ih
  | string hs ht _ ih => exact .string hs ht ih
  | code hc _ ih => exact .code hc ih
  | unclosed hlax => cases hlax

/-! ### Doubled quotes -/

theorem doubled_append (s t : Text) : doubled (s ++ t) = doubled s ++ doubled t := by
  induction s with
  | nil => rfl
  | cons b s ih =>
    rw [List.cons_append, doubled, doubled, ih]
    split <;> rfl

theorem newline_mem_doubled {s : Text} : newline ∈ doubled s ↔ newline ∈ s := by
  induction s with
  | nil => exact Iff.rfl
  | cons b s ih =>
    rw [doubled]
    split
    · next hb =>
      subst hb
      simp [ih]
    · simp [ih]

theorem count_quote_doubled (s : Text) : (doubled s).count quote = 2 * s.count quote := by
  induction s with
  | nil => rfl
  | cons b s ih =>
    rw [doubled]
    split
    · next hb =>
      subst hb
      rw [List.count_cons_self, List.count_cons_self, List.count_cons_self, ih]
      omega
    · next hb =>
      rw [List.count_cons_of_ne hb, List.count_cons_of_ne hb, ih]

/-! ### One part of a constant -/

theorem literalParts?_blank {b : UInt8} (hb : isBlank b = true) (r : Text) :
    literalParts? (b :: r) = literalParts? r := by
  rw [literalParts?, if_neg (ne_of_class hb (by decide)), if_neg (ne_of_class hb (by decide)),
    if_pos hb]

/-- The first `n` bytes are a string with its quotes doubled, and the closing quote if there is
one. -/
def TakesString (s r : Text) (n : Nat) : Prop :=
  r.take n = doubled s ++ [quote] ∨ r.take n = doubled s ∧ AtLineEnd (r.drop n)

theorem TakesString.cons {b : UInt8} {s x r : Text} {n : Nat}
    (hx : doubled (b :: s) = x ++ doubled s) (h : TakesString s r n) :
    TakesString (b :: s) (x ++ r) (x.length + n) := by
  rw [TakesString, hx, List.take_length_add_append, List.drop_length_add_append]
  apply h.imp
  · intro htake
    rw [htake, List.append_assoc]
  · rintro ⟨htake, hend⟩
    exact ⟨congrArg (x ++ ·) htake, hend⟩

/-- What a quoted string takes is a string without line breaks. -/
theorem exists_takesString (r : Text) :
    ∃ s, newline ∉ s ∧ TakesString s r (Source.literalTail r) := by
  fun_induction Source.literalTail r with
  | case1 => exact ⟨[], List.not_mem_nil, .inr ⟨rfl, .inl rfl⟩⟩
  | case2 r ih =>
    obtain ⟨s, hs, h⟩ := ih
    refine ⟨quote :: s, ?_, h.cons (x := [quote, quote]) ?_⟩
    · rw [List.mem_cons, not_or]
      exact ⟨by decide, hs⟩
    · rw [doubled, if_pos rfl]
      rfl
  | case3 r _ => exact ⟨[], List.not_mem_nil, .inl rfl⟩
  | case4 r => exact ⟨[], List.not_mem_nil, .inr ⟨rfl, .inr rfl⟩⟩
  | case5 b r _ hquote hbreak ih =>
    obtain ⟨s, hs, h⟩ := ih
    have hne : b ≠ quote := hquote
    refine ⟨b :: s, ?_, h.cons (x := [b]) ?_⟩
    · rw [List.mem_cons, not_or]
      exact ⟨fun h => hbreak h.symm, hs⟩
    · rw [doubled, if_neg hne]
      rfl

/-- A string that is left open is read if a doubled quote ends it. -/
theorem stringValue?_doubled {s v : Text} (h : stringValue? (doubled s) = some v) :
    ∃ s', s = s' ++ [quote] ∧ v = s := by
  rcases List.eq_nil_or_concat s with rfl | ⟨s', b, rfl⟩
  · cases h
  rw [List.concat_eq_append, doubled_append, doubled] at h
  split at h
  · next hb =>
    subst hb
    refine ⟨s', List.concat_eq_append, ?_⟩
    -- the first of the two quotes is kept and the second taken for the closing one
    rw [stringValue?, show doubled s' ++ quote :: quote :: doubled [] =
      (doubled s' ++ [quote]) ++ [quote] by simp [doubled], List.getLast?_concat, if_pos rfl,
      List.dropLast_concat, singleQuotes_append] at h
    rw [List.concat_eq_append]
    exact (Option.some.inj h).symm
  · next hb =>
    rw [show doubled [] = [] from rfl, stringValue?, List.getLast?_concat, if_neg] at h
    · cases h
    · intro hlast
      exact hb (Option.some.inj hlast)

theorem literalTail_unclosed {s t : Text} (hs : newline ∉ s) (ht : AtLineEnd t) :
    Source.literalTail (doubled s ++ t) = (doubled s).length := by
  have hend : Source.literalTail t = 0 := by
    cases t with
    | nil => rfl
    | cons b t =>
      rcases ht with ht | ht
      · cases ht
      · obtain rfl : b = newline := Option.some.inj ht
        rfl
  rw [literalTail_append_doubled hs, hend, Nat.add_zero]

theorem literalParts?_unclosed {s t : Text} (hs : newline ∉ s) (ht : AtLineEnd t) :
    literalParts? (quote :: (doubled (s ++ [quote]) ++ t)) =
      (literalParts? t).map (s ++ [quote] ++ ·) := by
  have hs' : newline ∉ s ++ [quote] := by
    rw [List.mem_append, not_or]
    exact ⟨hs, by decide⟩
  have hvalue : stringValue? (doubled (s ++ [quote])) = some (s ++ [quote]) := by
    rw [doubled_append, show doubled [quote] = [quote] ++ [quote] from rfl, ← List.append_assoc,
      stringValue?, List.getLast?_concat, if_pos rfl, List.dropLast_concat, singleQuotes_append]
    rfl
  rw [literalParts?]
  simp only [if_true, literalTail_unclosed hs' ht, List.take_left', List.drop_left', hvalue]

/-! ### Character codes -/

theorem isHexDigit_of_isDigit {b : UInt8} (h : isDigit b = true) : isHexDigit b = true := by
  rw [isHexDigit, h, Bool.true_or, Bool.true_or]

/-- The digits at the head of a text are all taken. -/
theorem takeWhile_digits {p : UInt8 → Bool} {ds t : Text} (hds : ∀ b ∈ ds, p b = true)
    (ht : t.head?.any p = false) : (ds ++ t).takeWhile p = ds := by
  rw [List.takeWhile_append_of_pos hds]
  cases t with
  | nil => simp
  | cons b t =>
    rw [List.takeWhile_cons_of_neg, List.append_nil]
    exact Bool.eq_false_iff.mp ht

theorem charCode?_dollar (r : Text) :
    charCode? (dollar :: r) =
      if (r.takeWhile isHexDigit).isEmpty ||
          decide (Bound.word32 ≤ Text.digitsValue 16 (r.takeWhile isHexDigit)) then none
      else some (Text.digitsValue 16 (r.takeWhile isHexDigit),
        1 + (r.takeWhile isHexDigit).length) :=
  rfl

theorem charCode?_decimal {r : Text} (hr : r.head? ≠ some dollar) :
    charCode? r =
      if (r.takeWhile isDigit).isEmpty ||
          decide (Bound.word32 ≤ Text.digitsValue 10 (r.takeWhile isDigit)) then none
      else some (Text.digitsValue 10 (r.takeWhile isDigit),
        0 + (r.takeWhile isDigit).length) := by
  cases r with
  | nil => rfl
  | cons b r =>
    unfold charCode?
    split
    · next heq =>
      split at heq
      · next hcons => exact absurd (congrArg List.head? hcons) hr
      · cases heq
        rfl

/-- A code is read with all its digits if none follows. -/
theorem Coded.charCode?_eq {c t : Text} {n : Nat} (h : Coded c n)
    (ht : t.head?.any isHexDigit = false) : charCode? (c ++ t) = some (n, c.length) := by
  cases h with
  | decimal hne hds hlt =>
    have ht' : t.head?.any isDigit = false := by
      cases t with
      | nil => rfl
      | cons b t =>
        rw [List.head?_cons, Option.any_some, Bool.eq_false_iff] at ht ⊢
        exact fun h => ht (isHexDigit_of_isDigit h)
    have hdollar : (c ++ t).head? ≠ some dollar := by
      obtain ⟨d, ds, rfl⟩ := List.exists_cons_of_ne_nil hne
      intro hd
      exact ne_of_class (hds d List.mem_cons_self) (by decide) (Option.some.inj hd)
    rw [charCode?_decimal hdollar, takeWhile_digits hds ht', if_neg, Nat.zero_add]
    simp [hne, Nat.not_le.mpr hlt]
  | @hexadecimal ds hne hds hlt =>
    rw [List.cons_append, charCode?_dollar, takeWhile_digits hds ht, if_neg, List.length_cons,
      Nat.add_comm]
    simp [hne, Nat.not_le.mpr hlt]

/-- What is read as a code is one. -/
theorem coded_of_charCode? {r : Text} {n k : Nat} (h : charCode? r = some (n, k)) :
    Coded (r.take k) n := by
  -- the digits that were taken stand at the head
  have htake (p : UInt8 → Bool) (r : Text) :
      r.take (r.takeWhile p).length = r.takeWhile p :=
    (List.prefix_iff_eq_take.mp (List.takeWhile_prefix p)).symm
  have hall {p : UInt8 → Bool} (r : Text) : ∀ b ∈ r.takeWhile p, p b = true :=
    List.all_eq_true.mp List.all_takeWhile
  by_cases hdollar : r.head? = some dollar
  · obtain ⟨r, rfl⟩ := List.head?_eq_some_iff.mp hdollar
    rw [charCode?_dollar, Option.ite_none_left_eq_some, Bool.not_eq_true, Bool.or_eq_false_iff,
      decide_eq_false_iff_not, List.isEmpty_eq_false_iff] at h
    obtain ⟨⟨hne, hlt⟩, h⟩ := h
    obtain ⟨rfl, rfl⟩ := Prod.mk.inj (Option.some.inj h)
    rw [Nat.add_comm, List.take_succ_cons, htake]
    exact .hexadecimal hne (hall r) (Nat.not_le.mp hlt)
  · rw [charCode?_decimal hdollar, Option.ite_none_left_eq_some, Bool.not_eq_true,
      Bool.or_eq_false_iff, decide_eq_false_iff_not, List.isEmpty_eq_false_iff] at h
    obtain ⟨⟨hne, hlt⟩, h⟩ := h
    obtain ⟨rfl, rfl⟩ := Prod.mk.inj (Option.some.inj h)
    rw [Nat.zero_add, htake]
    exact .decimal hne (hall r) (Nat.not_le.mp hlt)

/-! ### All parts -/

/-- No part of a constant begins with a digit. -/
theorem Denotes.no_digit {lax : Bool} {t v : Text} (h : Denotes lax t v) :
    t.head?.any isHexDigit = false := by
  cases h with
  | nil => rfl
  | @blank b t _ hb _ =>
    rw [List.head?_cons, Option.any_some, Bool.eq_false_iff]
    intro hdigit
    simp only [isBlank, Bool.or_eq_true, beq_iff_eq] at hb
    rcases hb with (((rfl | rfl) | rfl) | rfl) | rfl <;> exact absurd hdigit (by decide)
  | string => rfl
  | code => rfl
  | unclosed => rfl

/-- A constant is read. -/
theorem Denotes.literalParts?_eq {lax : Bool} {t v : Text} (h : Denotes lax t v) :
    literalParts? t = some v := by
  induction h with
  | nil => rw [literalParts?]
  | blank hb _ ih => rw [literalParts?_blank hb, ih]
  | string hs ht _ ih => rw [literalParts?_constant hs ht, ih, Option.map_some]
  | @code c t v n hc ht ih =>
    rw [literalParts?, if_neg (by decide), if_pos rfl, hc.charCode?_eq ht.no_digit]
    simp only [List.drop_left', ih, Option.map_some]
  | unclosed _ hs ht _ ih => rw [literalParts?_unclosed hs ht, ih, Option.map_some]

/-- **What is read is a constant**, up to strings that are left open. -/
theorem denotes_of_literalParts? {t v : Text} (h : literalParts? t = some v) :
    Denotes true t v := by
  fun_induction literalParts? t generalizing v with
  | case1 =>
    obtain rfl := Option.some.inj h
    exact .nil
  | case2 r n value hvalue =>
    rename_i ih
    obtain ⟨v, hv, rfl⟩ := Option.map_eq_some_iff.mp h
    have hrest := ih hv
    have hnext : (r.drop n)[0]? ≠ some quote := by
      rw [List.getElem?_drop, Nat.add_zero]
      exact Source.literalTail_next r
    have htext : r = r.take n ++ r.drop n := (List.take_append_drop n r).symm
    obtain ⟨s, hs, htake | ⟨htake, hend⟩⟩ := exists_takesString r
    · rw [htake, stringValue?, List.getLast?_concat, if_pos rfl, List.dropLast_concat,
        singleQuotes_doubled] at hvalue
      obtain rfl := Option.some.inj hvalue
      rw [htext, htake]
      exact .string hs hnext hrest
    · rw [htake] at hvalue
      obtain ⟨s', rfl, rfl⟩ := stringValue?_doubled hvalue
      rw [htext, htake]
      exact .unclosed rfl (fun h => hs (List.mem_append_left _ h)) hend hrest
  | case3 => cases h
  | case4 r code n hcode _ ih =>
    obtain ⟨v, hv, rfl⟩ := Option.map_eq_some_iff.mp h
    rw [← List.take_append_drop n r]
    exact .code (coded_of_charCode? hcode) (ih hv)
  | case5 => cases h
  | case6 b r _ _ hb ih => exact .blank hb (ih h)
  | case7 => cases h

/-! ### Strings that are left open -/

/-- Every line of a text has an even number of quotes. -/
def EvenQuotes (t : Text) : Prop := ∀ line ∈ Text.split newline t, line.count quote % 2 = 0

/-- A text has a first line. -/
theorem exists_split (sep : UInt8) (t : Text) :
    ∃ first rest, Text.split sep t = first :: rest :=
  List.exists_cons_of_ne_nil (Path.splitWhere_ne_nil _ t)

/-- Bytes without a line break in front of a text belong to its first line. -/
theorem split_onFirst {sep : UInt8} {x : Text} (hx : sep ∉ x) (t : Text) :
    Text.split sep (x ++ t) = Source.onFirst x (Text.split sep t) := by
  obtain ⟨first, rest, hsplit⟩ := exists_split sep t
  rw [hsplit]
  induction x with
  | nil => exact hsplit
  | cons b x ih =>
    rw [List.mem_cons, not_or] at hx
    have hb : ¬(b == sep) = true := by simpa using Ne.symm hx.1
    have hrest := ih hx.2
    rw [Text.split] at hrest
    rw [Text.split, List.cons_append, Text.splitWhere, if_neg hb, hrest]
    rfl

theorem evenQuotes_append {x : Text} (hx : newline ∉ x) (heven : x.count quote % 2 = 0)
    (t : Text) : EvenQuotes (x ++ t) ↔ EvenQuotes t := by
  obtain ⟨first, rest, hsplit⟩ := exists_split newline t
  unfold EvenQuotes
  rw [split_onFirst hx, hsplit, Source.onFirst, List.forall_mem_cons, List.forall_mem_cons,
    List.count_append]
  apply and_congr_left
  intro _
  omega

theorem evenQuotes_newline (t : Text) : EvenQuotes (newline :: t) ↔ EvenQuotes t := by
  show (∀ line ∈ [] :: Text.split newline t, _) ↔ _
  rw [List.forall_mem_cons]
  exact and_iff_right rfl

theorem not_evenQuotes {x t : Text} (hx : newline ∉ x) (hodd : x.count quote % 2 = 1)
    (ht : AtLineEnd t) : ¬EvenQuotes (x ++ t) := by
  -- the line that ends here is `x`
  have hmem : x ∈ Text.split newline (x ++ t) := by
    cases t with
    | nil => rw [List.append_nil, Path.split_of_not_mem hx, List.mem_singleton]
    | cons b t =>
      rcases ht with ht | ht
      · cases ht
      · obtain rfl : b = newline := Option.some.inj ht
        rw [Path.split_append, Path.split_of_not_mem hx]
        exact List.mem_append_left _ (List.mem_singleton.mpr rfl)
  intro heven
  have := heven x hmem
  omega

theorem count_quote_constant (s : Text) : (constant s).count quote = 2 * s.count quote + 2 := by
  rw [constant, List.count_cons_self, List.count_append, count_quote_doubled]
  rfl

theorem newline_not_mem_constant {s : Text} (hs : newline ∉ s) : newline ∉ constant s := by
  rw [constant, List.mem_cons, List.mem_append, newline_mem_doubled]
  rintro (h | h | h)
  · exact absurd h (by decide)
  · exact hs h
  · exact absurd h (by decide)

/-- A code has only digits and the dollar sign. -/
theorem Coded.not_mem {c : Text} {n : Nat} {b : UInt8} (h : Coded c n)
    (hb : isHexDigit b = false) (hdollar : b ≠ dollar) : b ∉ c := by
  intro hmem
  have hdigit : isHexDigit b = true := by
    cases h with
    | decimal _ hds _ => exact isHexDigit_of_isDigit (hds b hmem)
    | hexadecimal _ hds _ =>
      rcases List.mem_cons.mp hmem with h | hmem
      · exact absurd h hdollar
      · exact hds b hmem
  rw [hb] at hdigit
  cases hdigit

/-- A blank has no quotes, and a line break only begins another line. -/
theorem evenQuotes_blank {b : UInt8} (hb : isBlank b = true) (t : Text) :
    EvenQuotes (b :: t) ↔ EvenQuotes t := by
  by_cases hbreak : b = newline
  · subst hbreak
    exact evenQuotes_newline t
  · have hquote : b ≠ quote := ne_of_class hb (by decide)
    apply evenQuotes_append (x := [b])
    · rw [List.mem_singleton]
      exact fun h => hbreak h.symm
    · rw [List.count_singleton, beq_false_of_ne hquote]
      rfl

/-- A closed string has all its quotes in pairs. -/
theorem evenQuotes_constant {s : Text} (hs : newline ∉ s) (t : Text) :
    EvenQuotes (constant s ++ t) ↔ EvenQuotes t := by
  apply evenQuotes_append (newline_not_mem_constant hs)
  rw [count_quote_constant]
  omega

theorem evenQuotes_code {c : Text} {n : Nat} (hc : Coded c n) (t : Text) :
    EvenQuotes (numberSign :: (c ++ t)) ↔ EvenQuotes t := by
  apply evenQuotes_append (x := numberSign :: c)
  · rw [List.mem_cons, not_or]
    exact ⟨by decide, hc.not_mem (by decide) (by decide)⟩
  · rw [List.count_cons_of_ne (by decide),
      List.count_eq_zero.mpr (hc.not_mem (by decide) (by decide))]

/-- A string that is left open lacks the other quote of the opening one. -/
theorem not_evenQuotes_unclosed {s t : Text} (hs : newline ∉ s) (ht : AtLineEnd t) :
    ¬EvenQuotes (quote :: (doubled (s ++ [quote]) ++ t)) := by
  apply not_evenQuotes (x := quote :: doubled (s ++ [quote])) _ _ ht
  · rw [List.mem_cons, newline_mem_doubled, List.mem_append, not_or, not_or]
    exact ⟨by decide, hs, by decide⟩
  · rw [List.count_cons_self, count_quote_doubled]
    omega

theorem Denotes.evenQuotes {t v : Text} (h : Denotes false t v) : EvenQuotes t := by
  induction h with
  | nil =>
    intro line hline
    rw [List.mem_singleton.mp hline]
    rfl
  | blank hb _ ih => exact (evenQuotes_blank hb _).mpr ih
  | string hs _ _ ih => exact (evenQuotes_constant hs _).mpr ih
  | code hc _ ih => exact (evenQuotes_code hc _).mpr ih
  | unclosed hlax => cases hlax

/-- Where every line has an even number of quotes no string is left open. -/
theorem Denotes.closed {t v : Text} (h : Denotes true t v) (heven : EvenQuotes t) :
    Denotes false t v := by
  induction h with
  | nil => exact .nil
  | blank hb _ ih => exact .blank hb (ih ((evenQuotes_blank hb _).mp heven))
  | string hs ht _ ih => exact .string hs ht (ih ((evenQuotes_constant hs _).mp heven))
  | code hc _ ih => exact .code hc (ih ((evenQuotes_code hc _).mp heven))
  | unclosed _ hs ht _ _ => exact absurd heven (not_evenQuotes_unclosed hs ht)

/-- **Main.**  A term is read as a constant exactly if it is not empty and is put together from
blanks, quoted strings and character codes, where a string may be left open at the end of a line
if its last two bytes are a doubled quote.  No string of it is left open exactly if every line has
an even number of quotes. -/
theorem parseLiteral?_eq_some_iff (t v : Text) :
    (parseLiteral? t = some v ↔ t ≠ [] ∧ Denotes true t v) ∧
      (Denotes false t v ↔ Denotes true t v ∧ EvenQuotes t) := by
  constructor
  · rw [parseLiteral?]
    constructor
    · intro h
      split at h
      · cases h
      · next hne =>
        rw [List.isEmpty_iff] at hne
        exact ⟨hne, denotes_of_literalParts? h⟩
    · rintro ⟨hne, h⟩
      rw [if_neg (by rwa [List.isEmpty_iff])]
      exact h.literalParts?_eq
  · constructor
    · intro h
      exact ⟨h.lax, h.evenQuotes⟩
    · rintro ⟨h, heven⟩
      exact h.closed heven

/-- A string without its closing quote is read, although it is no constant. -/
theorem parseLiteral?_openString :
    parseLiteral? "'open''" = some "open'" ∧ ∀ v, ¬Denotes false "'open''" v := by
  refine ⟨by decide +kernel, fun v h => ?_⟩
  have := h.evenQuotes
  revert this
  unfold EvenQuotes
  decide +kernel

end PascalSurvey.Sql
