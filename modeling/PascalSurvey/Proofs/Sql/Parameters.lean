/-
PascalSurvey/Proofs/Sql/Parameters.lean

Quoting and the parameters of a query.  Tokens and parameters are read by different rules: the
parameters know no comments, and their names go on with letters of every script, while a token
ends at the first byte beyond ASCII.  A name beyond ASCII may therefore hold a word that is
quoted, which cuts the name short; for names in ASCII quoting keeps the parameters.

The parameters are read with the quote of the part that is skipped as a state (`usesIn`), since
a quote in a comment puts the two readings out of step.  A word in quotes leaves every state as
it was.  Any other token is read as before: what stands behind it can matter only if a colon or a
name reaches its end, and then the next token does not go on with the name (`Joint`).
-/
import PascalSurvey.Sql.Parameters
import PascalSurvey.Proofs.Source.Overlay
import PascalSurvey.Proofs.Sql.Quoting

namespace PascalSurvey.Sql

open Ascii

/-! ### Reading with a state -/

/-- The bytes that begin a part that is skipped. -/
abbrev Opener := { b : UInt8 // b = quote ∨ b = doubleQuote }

/-- The names after single colons in a text; with a state, those behind the byte that ends the
part to skip. -/
def usesIn : (state : Option Opener) → (t : Text) → List Text
  | none, t => parameterUses t
  | some q, t => parameterUses (t.drop (through q t))

/-- The characters of a name beyond its first. -/
def isNameChar (c : Nat) : Bool := c == 0x5F || isAlphanumeric c

theorem usesIn_closing (q : Opener) (r : Text) : usesIn (some q) (q :: r) = usesIn none r := by
  simp [usesIn, through]

theorem usesIn_skipped {q : Opener} {b : UInt8} (hb : b ≠ q) (r : Text) :
    usesIn (some q) (b :: r) = usesIn (some q) r := by
  simp [usesIn, through, hb, Nat.add_comm 1]

theorem usesIn_opening (q : Opener) (r : Text) : usesIn none (q :: r) = usesIn (some q) r := by
  rw [usesIn, parameterUses, if_pos q.2, usesIn]

theorem usesIn_plain {b : UInt8} (hquote : ¬(b = quote ∨ b = doubleQuote)) (hcolon : b ≠ colon)
    (r : Text) : usesIn none (b :: r) = usesIn none r := by
  rw [usesIn, parameterUses, if_neg hquote, if_neg hcolon, usesIn]

theorem usesIn_pair (r : Text) : usesIn none (colon :: colon :: r) = usesIn none r := by
  rw [usesIn, parameterUses, if_neg (by decide), if_pos rfl, List.head?_cons, if_pos rfl,
    usesIn, List.tail_cons]

theorem usesIn_colon {r : Text} (hcolon : r.head? ≠ some colon)
    (hstart : r.head?.any isIdentStart = false) : usesIn none (colon :: r) = usesIn none r := by
  have hname : parameterName r = 0 := by
    cases r with
    | nil => rfl
    | cons c r =>
      rw [List.head?_cons, Option.any_some] at hstart
      rw [parameterName, hstart, if_neg (by decide)]
  rw [usesIn, parameterUses, if_neg (by decide), if_pos rfl, if_neg hcolon, hname, if_pos rfl,
    usesIn]

theorem usesIn_name {c : UInt8} (hc : isIdentStart c = true) (r : Text) :
    usesIn none (colon :: c :: r) =
      (c :: r.take (Utf8.run isNameChar r)) :: usesIn none (r.drop (Utf8.run isNameChar r)) := by
  have hcolon : c ≠ colon := ne_of_class hc (by decide)
  have hname : parameterName (c :: r) = Utf8.run isNameChar r + 1 := by
    rw [parameterName, if_pos hc, Nat.add_comm]
    rfl
  rw [usesIn, parameterUses, if_neg (by decide), if_pos rfl, if_neg (by simpa using hcolon)]
  simp [hname, usesIn]

/-- Word bytes mean nothing outside names. -/
theorem usesIn_word {w : Text} (hw : ∀ b ∈ w, isWordByte b = true) (state : Option Opener)
    (r : Text) : usesIn state (w ++ r) = usesIn state r := by
  induction w with
  | nil => rfl
  | cons b w ih =>
    have hb := hw b List.mem_cons_self
    have hquote : ¬(b = quote ∨ b = doubleQuote) := by
      rintro (rfl | rfl) <;> exact absurd hb (by decide)
    rw [List.cons_append]
    cases state with
    | none =>
      rw [usesIn_plain hquote (ne_of_class hb (by decide))]
      exact ih fun c hc => hw c (List.mem_cons_of_mem _ hc)
    | some q =>
      have hq : b ≠ q := by
        rintro rfl
        exact hquote q.2
      rw [usesIn_skipped hq]
      exact ih fun c hc => hw c (List.mem_cons_of_mem _ hc)

/-- A word in quotes leaves the state as it was. -/
theorem usesIn_quoted {w : Text} (hw : ∀ b ∈ w, isWordByte b = true) (state : Option Opener)
    (r : Text) : usesIn state (quoted w ++ r) = usesIn state r := by
  have hupper : ∀ b ∈ Text.toUpper w, isWordByte b = true := by
    intro b hb
    obtain ⟨c, hc, rfl⟩ := List.mem_map.mp hb
    exact isWordByte_upper (hw c hc)
  have hdouble : doubleQuote = quote ∨ doubleQuote = doubleQuote := .inr rfl
  rw [quoted, List.cons_append, List.cons_append, List.append_assoc]
  rcases state with - | ⟨q, rfl | rfl⟩
  · exact (usesIn_opening ⟨_, hdouble⟩ _).trans
      ((usesIn_word hupper _ _).trans (usesIn_closing ⟨_, hdouble⟩ r))
  · rw [usesIn_skipped (by decide), usesIn_word hupper, List.singleton_append,
      usesIn_skipped (by decide)]
  · exact (usesIn_closing ⟨_, hdouble⟩ _).trans
      ((usesIn_word hupper _ _).trans (usesIn_opening ⟨_, hdouble⟩ r))

/-! ### Names -/

/-- Names in ASCII. -/
def InAscii (names : List Text) : Prop := ∀ name ∈ names, ∀ b ∈ name, b < 0x80

theorem isIdentByte_of_isNameChar {b : UInt8} (hb : b < 0x80) (h : isNameChar b.toNat = true) :
    isIdentByte b = true := by
  have hlt : b.toNat < 0x80 := UInt8.lt_iff_toNat_lt.mp hb
  simp only [isNameChar, isAlphanumeric, if_pos hlt, isAsciiWordChar, Bool.or_eq_true,
    Bool.and_eq_true, beq_iff_eq] at h
  rcases h with h | h
  · obtain rfl : b = underscore := UInt8.toNat_inj.mp h
    decide
  · simpa using h.1.2

/-- A run that ends within `z` ends there also if words behind `z` are put in quotes. -/
theorem run_requote {p : Nat → Bool} (hp : p 0x22 = false) {z t r : Text} (hup : UpToQuote t r)
    (hz : Utf8.run p (z ++ t) ≤ z.length) : Utf8.run p (z ++ r) = Utf8.run p (z ++ t) := by
  induction hlen : z.length using Nat.strongRecOn generalizing z with
  | ind n ih =>
    subst hlen
    cases z with
    | nil =>
      rw [List.nil_append, List.length_nil, Nat.le_zero] at hz
      rw [List.nil_append, List.nil_append, hz]
      cases hup with
      | nil => exact hz
      | @same b t r hup =>
        rw [Utf8.run] at hz ⊢
        rw [readHead_requote b hup]
        rcases hread : Utf8.readHead b t with ⟨code, more⟩ | more
        · simp only [hread] at hz ⊢
          split at hz
          · omega
          · next hcode => rw [if_neg hcode]
        · rfl
      | word t r hc =>
        rw [Utf8.run, show Utf8.readHead doubleQuote r = .scalar 0x22 0 from rfl]
        simp [hp]
    | cons a z =>
      rw [List.cons_append, Utf8.run] at hz
      rw [List.cons_append, List.cons_append, Utf8.run, Utf8.run, readHead_requote a (hup.append z)]
      rcases hread : Utf8.readHead a (z ++ t) with ⟨code, more⟩ | more
      · simp only [hread, List.length_cons] at hz ⊢
        split at hz
        · next hcode =>
          have hmore : more ≤ z.length := by omega
          rw [List.drop_append_of_le_length hmore] at hz ⊢
          rw [List.drop_append_of_le_length hmore, ih (z.drop more).length _ _ rfl]
          · rw [List.length_drop, List.length_cons]; omega
          · rw [List.length_drop]; omega
        · next hcode => rw [if_neg hcode, if_neg hcode]
      · rfl

/-! ### Behind a token -/

/-- In a state, two texts have the same names if those of the first are in ASCII. -/
def SameUsesIn (state : Option Opener) (t r : Text) : Prop :=
  InAscii (usesIn state t) → usesIn state r = usesIn state t

/-- The same in every state. -/
def SameUses (t r : Text) : Prop := ∀ state, SameUsesIn state t r

theorem SameUsesIn.of_eq {state state' : Option Opener} {t t' r r' : Text}
    (h : SameUsesIn state t r) (ht : usesIn state' t' = usesIn state t)
    (hr : usesIn state' r' = usesIn state r) : SameUsesIn state' t' r' := by
  intro hascii
  rw [ht] at hascii
  rw [ht, hr, h hascii]

/-- What is read in `x` does not go on in `t`: no colon at the end of `x` stands before a colon or
a name, and no name at its end goes on. -/
structure Joint (x t : Text) : Prop where
  colon : x.getLast? = some colon → t.head? ≠ some colon ∧ t.head?.any isIdentStart = false
  name : Ascii.colon ∈ x → x.getLast?.any isIdentByte = true → t.head?.any isIdentByte = false

theorem Joint.tail {b : UInt8} {x t : Text} (h : Joint (b :: x) t) : Joint x t := by
  cases x with
  | nil => exact ⟨nofun, nofun⟩
  | cons c x =>
    constructor
    · intro hlast
      exact h.colon (by rwa [List.getLast?_cons_cons])
    · intro hmem hlast
      exact h.name (List.mem_cons_of_mem _ hmem) (by rwa [List.getLast?_cons_cons])

theorem Joint.drop {x t : Text} (h : Joint x t) (n : Nat) : Joint (x.drop n) t := by
  induction n generalizing x with
  | zero => exact h
  | succ n ih =>
    cases x with
    | nil => exact h
    | cons b x => exact ih h.tail

theorem getLast?_any_of_forall {p : UInt8 → Bool} {b : UInt8} {x : Text}
    (h : ∀ c ∈ b :: x, p c = true) : (b :: x).getLast?.any p = true := by
  rw [List.getLast?_eq_some_getLast (List.cons_ne_nil b x)]
  exact h _ (List.getLast_mem _)

/-- A name in ASCII ends within the text in which it begins. -/
theorem Joint.run_le {c : UInt8} {z t : Text} (h : Joint (Ascii.colon :: c :: z) t)
    (hc : isIdentStart c = true)
    (hascii : ∀ b ∈ (z ++ t).take (Utf8.run isNameChar (z ++ t)), b < 0x80) :
    Utf8.run isNameChar (z ++ t) ≤ z.length := by
  -- otherwise its bytes at the end of the one text and at the head of the other are letters
  by_contra hlt
  have hident : ∀ b ∈ (z ++ t).take (Utf8.run isNameChar (z ++ t)), isIdentByte b = true :=
    fun b hb => isIdentByte_of_isNameChar (hascii b hb) (Utf8.run_ascii hascii b hb)
  rw [List.take_append, List.take_of_length_le (by omega)] at hident
  have hlast : (Ascii.colon :: c :: z).getLast?.any isIdentByte = true := by
    rw [List.getLast?_cons_cons]
    apply getLast?_any_of_forall
    intro b hb
    rcases List.mem_cons.mp hb with rfl | hb
    · exact isIdentStart_isIdentByte hc
    · exact hident b (List.mem_append_left _ hb)
  have hnext := h.name List.mem_cons_self hlast
  cases t with
  | nil =>
    have := Utf8.run_le isNameChar (z ++ [])
    rw [List.length_append, List.length_nil] at this
    omega
  | cons a t =>
    obtain ⟨k, hk⟩ := Nat.exists_eq_add_of_lt (Nat.not_le.mp hlt)
    have ha := hident a (List.mem_append_right _ (by
      rw [hk, Nat.add_assoc, Nat.add_sub_cancel_left, List.take_succ_cons]
      exact List.mem_cons_self))
    rw [List.head?_cons, Option.any_some, ha] at hnext
    cases hnext

/-- A name at the head is the same, and what is behind it is read on from the same place. -/
theorem SameUsesIn.name {c : UInt8} {z t r : Text} (hc : isIdentStart c = true)
    (hx : Joint (colon :: c :: z) t) (hup : UpToQuote t r)
    (h : ∀ n, SameUsesIn none (z.drop n ++ t) (z.drop n ++ r)) :
    SameUsesIn none (colon :: c :: (z ++ t)) (colon :: c :: (z ++ r)) := by
  intro hascii
  rw [usesIn_name hc] at hascii ⊢
  have hle := hx.run_le hc fun b hb =>
    hascii _ List.mem_cons_self b (List.mem_cons_of_mem _ hb)
  have hrest : InAscii (usesIn none (z.drop (Utf8.run isNameChar (z ++ t)) ++ t)) := by
    intro name hname
    rw [← List.drop_append_of_le_length hle] at hname
    exact hascii name (List.mem_cons_of_mem _ hname)
  rw [usesIn_name hc, run_requote (by decide) hup hle, List.take_append_of_le_length hle,
    List.take_append_of_le_length hle, List.drop_append_of_le_length hle,
    List.drop_append_of_le_length hle, h _ hrest]

/-- **A token is read as before** when the words behind it are put in quotes. -/
theorem SameUses.append {x t r : Text} (h : SameUses t r) (hup : UpToQuote t r) (hx : Joint x t) :
    SameUses (x ++ t) (x ++ r) := by
  -- on the length of `x`, since a name takes several of its bytes at once
  induction hlen : x.length using Nat.strongRecOn generalizing x with
  | ind n ih =>
    subst hlen
    intro state
    cases x with
    | nil => exact h state
    | cons b y =>
      have hy := ih y.length (Nat.lt_succ_self _) hx.tail rfl
      cases state with
      | some q =>
        by_cases hb : b = q
        · subst hb
          exact (hy none).of_eq (usesIn_closing q _) (usesIn_closing q _)
        · exact (hy (some q)).of_eq (usesIn_skipped hb _) (usesIn_skipped hb _)
      | none =>
        by_cases hquote : b = quote ∨ b = doubleQuote
        · let q : Opener := ⟨b, hquote⟩
          exact (hy (some q)).of_eq (usesIn_opening q _) (usesIn_opening q _)
        by_cases hcolon : b = colon
        · subst hcolon
          cases y with
          | nil =>
            obtain ⟨hpair, hstart⟩ := hx.colon rfl
            exact (h none).of_eq (usesIn_colon hpair hstart)
              (usesIn_colon (hup.head?_ne (by decide) hpair) (hup.head?_any hstart))
          | cons c z =>
            by_cases hpair : c = colon
            · subst hpair
              have hz := ih z.length (by rw [List.length_cons, List.length_cons]; omega)
                hx.tail.tail rfl
              exact (hz none).of_eq (usesIn_pair _) (usesIn_pair _)
            cases hstart : isIdentStart c with
            | false =>
              have hskip (u : Text) := usesIn_colon (r := c :: u) (by simpa using hpair) hstart
              exact (hy none).of_eq (hskip _) (hskip _)
            | true =>
              refine SameUsesIn.name hstart hx hup fun n => ?_
              exact ih (z.drop n).length
                (by rw [List.length_drop, List.length_cons, List.length_cons]; omega)
                (hx.tail.tail.drop n) rfl none
        · exact (hy none).of_eq (usesIn_plain hquote hcolon _) (usesIn_plain hquote hcolon _)

/-! ### Tokens -/

theorem Joint.of_nil (x : Text) : Joint x [] := ⟨fun _ => ⟨nofun, rfl⟩, fun _ _ => rfl⟩

theorem Joint.of_last {x t : Text} {d : UInt8} (h : x.getLast? = some d) (hcolon : d ≠ Ascii.colon)
    (hident : isIdentByte d = false) : Joint x t := by
  constructor
  · intro hlast
    exact absurd (Option.some.inj (h.symm.trans hlast)) hcolon
  · intro _ hlast
    rw [h, Option.any_some, hident] at hlast
    cases hlast

theorem Joint.of_not_mem {x t : Text} (h : Ascii.colon ∉ x) : Joint x t :=
  ⟨fun hlast => absurd (List.mem_of_getLast? hlast) h, fun hmem => absurd hmem h⟩

/-- The first `n` bytes of a text end with `d`, or are the whole text. -/
def EndsWith (d : UInt8) (r : Text) (n : Nat) : Prop :=
  r.drop n = [] ∨ (r.take n).getLast? = some d

theorem EndsWith.cons {d : UInt8} {r : Text} {n : Nat} (h : EndsWith d r n) (b : UInt8) :
    EndsWith d (b :: r) (1 + n) := by
  rw [EndsWith, Nat.add_comm 1, List.drop_succ_cons, List.take_succ_cons, List.getLast?_cons]
  exact h.imp_right fun h => by rw [h]; rfl

theorem Joint.of_endsWith {d : UInt8} {r : Text} {n : Nat} (x : Text) (h : EndsWith d r n)
    (hcolon : d ≠ Ascii.colon) (hident : isIdentByte d = false) :
    Joint (x ++ r.take n) (r.drop n) := by
  rcases h with h | h
  · rw [h]
    exact .of_nil _
  · refine .of_last (d := d) ?_ hcolon hident
    rw [List.getLast?_append, h]
    rfl

theorem endsWith_literalTail (r : Text) : EndsWith quote r (literalTail r) := by
  fun_induction literalTail r with
  | case1 => exact .inl rfl
  | case2 r ih =>
    rw [show 2 + literalTail r = 1 + (1 + literalTail r) by omega]
    exact (ih.cons quote).cons quote
  | case3 r => exact .inr rfl
  | case4 b r _ _ ih => exact ih.cons b

theorem endsWith_throughDoubleQuote (r : Text) :
    EndsWith doubleQuote r (throughDoubleQuote r) := by
  fun_induction throughDoubleQuote r with
  | case1 => exact .inl rfl
  | case2 r => exact .inr rfl
  | case3 b r _ ih => exact ih.cons b

theorem endsWith_throughStarSlash (r : Text) : EndsWith slash r (throughStarSlash r) := by
  fun_induction throughStarSlash r with
  | case1 => exact .inl rfl
  | case2 r => exact .inr rfl
  | case3 b r _ ih => exact ih.cons b

theorem Joint.of_head {x t : Text} {d : UInt8} (h : t.head? = none ∨ t.head? = some d)
    (hcolon : d ≠ Ascii.colon) (hident : isIdentByte d = false) : Joint x t := by
  have hstart : isIdentStart d = false := by
    rw [Bool.eq_false_iff] at hident ⊢
    exact fun h => hident (isIdentStart_isIdentByte h)
  rcases h with h | h
  · exact ⟨fun _ => by simp [h], fun _ _ => by simp [h]⟩
  · exact ⟨fun _ => by simp [h, hcolon, hstart], fun _ _ => by simp [h, hident]⟩

theorem any_head?_drop_takeWhile (p : UInt8 → Bool) (r : Text) :
    (r.drop (r.takeWhile p).length).head?.any p = false := by
  induction r with
  | nil => rfl
  | cons b r ih =>
    cases hb : p b with
    | true => rwa [List.takeWhile_cons_of_pos hb, List.length_cons, List.drop_succ_cons]
    | false => simp [hb]

/-- A run of a class that has no colon. -/
theorem Joint.of_run {p : UInt8 → Bool} {b : UInt8} {r : Text} (hb : p b = true)
    (hcolon : p Ascii.colon = false) :
    Joint (b :: r.take (r.takeWhile p).length) (r.drop (r.takeWhile p).length) := by
  refine .of_not_mem fun hmem => ?_
  rcases List.mem_cons.mp hmem with heq | hmem
  · exact ne_of_class hb hcolon heq.symm
  · exact ne_of_class (mem_take_takeWhile hmem) hcolon rfl

/-- Word bytes up to the end of a word. -/
theorem Joint.of_word {x t : Text} (hx : x.getLast?.any isWordByte = true)
    (ht : t.head?.any isWordByte = false) : Joint x t := by
  constructor
  · intro hlast
    rw [hlast] at hx
    exact absurd hx (by decide)
  · intro _ _
    cases t with
    | nil => rfl
    | cons b t => exact (Bool.or_eq_false_iff.mp ht).1

theorem colon_not_mem_of_ne : ∀ op ∈ doubleOperators, op ≠ [colon, colon] → colon ∉ op := by
  decide +kernel

/-- **No token but the double colon goes on in what stands behind it.** -/
theorem Begins.joint {b : UInt8} {r : Text} {kind : TokenKind} {n : Nat} (h : Begins b r kind n)
    (hpair : b :: r.take n ≠ [colon, colon]) : Joint (b :: r.take n) (r.drop n) := by
  cases h with
  | literal r => exact .of_endsWith [quote] (endsWith_literalTail r) (by decide) (by decide)
  | quotedName r =>
    exact .of_endsWith [doubleQuote] (endsWith_throughDoubleQuote r) (by decide) (by decide)
  | lineComment r =>
    rw [Nat.add_comm 1, List.drop_succ_cons]
    refine .of_head (d := newline) ?_ (by decide) (by decide)
    rw [List.head?_drop]
    exact Source.untilBreak_next r
  | blockComment r =>
    rw [Nat.add_comm 1, List.drop_succ_cons, List.take_succ_cons]
    exact .of_endsWith [slash, asterisk] (endsWith_throughStarSlash r) (by decide) (by decide)
  | @parameter c r hc =>
    rw [Nat.add_comm 1, List.drop_succ_cons, List.take_succ_cons]
    refine .of_word ?_ (any_head?_drop_takeWhile isWordByte r)
    rw [List.getLast?_cons_cons]
    exact getLast?_any_of_forall fun d => (Begins.word r hc).isWordByte_of_mem
  | word r hb => exact .of_run (isWordByte_of_isIdentStart hb) (by decide)
  | number r hb => exact .of_run (by simp [hb]) (by decide)
  | space r hb => exact .of_run hb (by decide)
  | operator r hop =>
    rw [List.take_succ_cons, List.take_zero] at hpair ⊢
    exact .of_not_mem (colon_not_mem_of_ne _ hop hpair)
  | character h₁ h₂ h₃ h₄ h₅ h₆ h₇ h₈ h₉ =>
    by_cases hb : b = colon
    · subst hb
      -- a colon by itself: a name or a second colon would have gone with it
      rw [Utf8.readHead_ascii (by decide), further, List.take_zero, List.drop_zero]
      constructor
      · intro _
        constructor
        · intro hhead
          obtain ⟨r', rfl⟩ := List.head?_eq_some_iff.mp hhead
          rw [List.take_succ_cons, List.take_zero] at h₉
          exact h₉ (by decide +kernel)
        · rw [Bool.eq_false_iff]
          exact fun hstart => h₅ ⟨rfl, hstart⟩
      · exact fun _ hlast => absurd hlast (by decide)
    · refine .of_not_mem fun hmem => ?_
      rcases List.mem_cons.mp hmem with hmem | hmem
      · exact hb hmem.symm
      · rcases hread : Utf8.readHead b r with ⟨code, more⟩ | more
        · rw [hread, further] at hmem
          exact absurd ((Utf8.readHead_scalar hread).2.2.2 _ hmem) (by decide)
        · rw [hread, further, List.take_zero] at hmem
          cases hmem

/-! ### Statements -/

theorem SameUses.pair {t r : Text} (h : SameUses t r) :
    SameUses (colon :: colon :: t) (colon :: colon :: r) := by
  intro state
  cases state with
  | none => exact (h none).of_eq (usesIn_pair t) (usesIn_pair r)
  | some q =>
    have hq : colon ≠ q := by
      rintro hq
      exact absurd (hq ▸ q.2) (by decide)
    have hskip (u : Text) : usesIn (some q) (colon :: colon :: u) = usesIn (some q) u := by
      rw [usesIn_skipped hq, usesIn_skipped hq]
    exact (h (some q)).of_eq (hskip t) (hskip r)

theorem SameUses.quoted {w t r : Text} (h : SameUses t r) (hw : ∀ b ∈ w, isWordByte b = true) :
    SameUses (w ++ t) (Sql.quoted w ++ r) :=
  fun state => (h state).of_eq (usesIn_word hw state t) (usesIn_quoted hw state r)

/-- **Putting words in quotes keeps the names of a statement, if they are in ASCII.** -/
theorem sameUses_requoted {P : Text → Prop} {t : Text} {us : List Token}
    (h : List.Forall₂ (Requoted P) (tokenize t) us) : SameUses t (us.flatMap Token.text) := by
  induction t using tokenwise generalizing us with
  | nil =>
    rw [tokenize] at h
    cases h
    exact fun _ _ => rfl
  | token b r kind n hb ih =>
    rw [tokenize_of_begins hb] at h
    cases h with
    | @cons _ u _ us hu hus =>
      have hrest := ih hus
      have hup := (tokenize_requoted hus).2
      have htext : b :: r = (b :: r.take n) ++ r.drop n := by
        rw [List.cons_append, List.take_append_drop]
      rw [htext, List.flatMap_cons]
      cases hu with
      | same =>
        by_cases hpair : b :: r.take n = [colon, colon]
        · rw [hpair]
          exact hrest.pair
        · exact hrest.append hup (hb.joint hpair)
      | quoted hword =>
        obtain rfl : kind = .word := hword
        exact hrest.quoted fun c => hb.isWordByte_of_mem

theorem inAscii_of_dedupFold {names : List Text} (h : InAscii (Text.dedupFold names)) :
    InAscii names := by
  intro name hname
  obtain ⟨u, hu, heq⟩ := Text.memFold_iff.mp (Text.memFold_dedupFold hname)
  exact Text.ascii_of_toLower_eq heq (h u hu)

/-- **Main.**  Quoting keeps the parameters of a query whose parameters have names in ASCII. -/
theorem parametersOf_quoteReserved (table : ReservedWords) (sql : Text)
    (h : ∀ name ∈ parametersOf sql, ∀ b ∈ name, b < 0x80) :
    parametersOf (quoteReserved table sql) = parametersOf sql := by
  have huses : parameterUses (quoteReserved table sql) = parameterUses sql :=
    sameUses_requoted (quoteTokensFrom_requoted table .initial (tokenize sql)) none
      (inAscii_of_dedupFold h)
  rw [parametersOf, huses]
  rfl

/-- A query in which the apostrophe of a comment begins a part without parameters. -/
def commentedQuery : Text :=
  "SELECT DATE FROM ORDER WHERE A = ':x' AND DATE = :DATE AND B::VALUE > :b -- it's :y"

theorem parametersOf_commentedQuery :
    parametersOf commentedQuery = ["DATE", "b"] ∧
    (∀ name ∈ parametersOf commentedQuery, ∀ b ∈ name, b < 0x80) ∧
    parametersOf (quoteReserved .firebird commentedQuery) = parametersOf commentedQuery :=
  ⟨by decide +kernel, by decide +kernel,
    parametersOf_quoteReserved .firebird commentedQuery (by decide +kernel)⟩

/-- A name beyond ASCII that ends with a reserved word is cut short by quoting. -/
theorem parametersOf_accentedName :
    parametersOf "SELECT * FROM T WHERE :maßDATE = D" = ["maßDATE"] ∧
    parametersOf (quoteReserved .firebird "SELECT * FROM T WHERE :maßDATE = D") = ["maß"] := by
  decide +kernel

end PascalSurvey.Sql
