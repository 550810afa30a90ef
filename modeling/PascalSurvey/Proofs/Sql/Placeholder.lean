/-
PascalSurvey/Proofs/Sql/Placeholder.lean

Placeholders as parameters.  The name of a placeholder is an identifier: it is a bare one, or the
last segment of a dotted name without the white space before it, and a call hands on the name of
its argument (`ident?_placeholderName?`).

An identifier goes on with word characters and the name of a parameter with a narrower class, so
the two readers agree on a name only up to its first character beyond that class.  Which
characters these are is said by `isSilent`.

Main result: a placeholder in a query text is read back as one parameter, whose name is that of
the placeholder up to there, so the names that are read back as they are are those without such
characters (`parametersOf_placeholder`).
-/
import PascalSurvey.Proofs.Source.Name
import PascalSurvey.Proofs.Sql.Parameters
import PascalSurvey.Proofs.Text.White
import PascalSurvey.Proofs.Text.Word
import PascalSurvey.Sql.Expression

namespace PascalSurvey.Sql

open Ascii

/-! ### Names of placeholders -/

/-- An identifier is a letter or underscore and word characters. -/
theorem ident?_eq_length_iff {t : Text} :
    Text.ident? t = some t.length ↔
      ∃ b r, t = b :: r ∧ isIdentStart b = true ∧ Utf8.Chars isWordChar r := by
  cases t with
  | nil => simp [Text.ident?]
  | cons b r =>
    rw [Text.ident?, Option.ite_none_right_eq_some, List.length_cons, Option.some.injEq,
      Nat.add_comm, Nat.add_right_cancel_iff]
    constructor
    · rintro ⟨hb, hrun⟩
      exact ⟨b, r, rfl, hb, Utf8.chars_iff.mpr hrun⟩
    · rintro ⟨b', r', h, hb, hr⟩
      obtain ⟨rfl, rfl⟩ := List.cons.inj h
      exact ⟨hb, Utf8.chars_iff.mp hr⟩

/-- So it is word characters throughout. -/
theorem chars_of_ident? {t : Text} (h : Text.ident? t = some t.length) :
    Utf8.Chars isWordChar t := by
  obtain ⟨b, r, rfl, hb, hr⟩ := ident?_eq_length_iff.mp h
  have hb' := isIdentStart_isIdentByte hb
  have hread := Utf8.readHead_ascii (isIdentByte_lt hb') []
  exact .cons (x := []) hread (isWordChar_of_isIdentByte hb') hr

/-- **A dotted name ends with an identifier**, which is its last segment. -/
theorem ident?_lastSegment {t : Text} (h : Source.dottedName? Text.ident? t = some t.length)
    (hne : Text.ident? t ≠ some t.length) :
    Text.ident? (Term.lastSegment t) = some (Term.lastSegment t).length := by
  obtain ⟨x, gap, seg, rfl, hgap, hseg⟩ := Source.exists_lastSegment h hne
  have hword := chars_of_ident? hseg
  have hdot : dot ∉ gap ++ seg := by
    rw [List.mem_append, not_or]
    exact ⟨hgap.not_mem (by decide) (by decide), hword.not_mem (by decide) (by decide)⟩
  have hlast : Term.lastSegment (x ++ dot :: (gap ++ seg)) = seg := by
    rw [Term.lastSegment, Text.cutLast?_append hdot]
    simpa only [List.append_nil] using
      Text.trim_white_ink hgap (Text.ink_of_isWordChar hword) .nil
  rw [hlast, hseg]

/-- **The name of a placeholder is an identifier**, however many calls stand around it. -/
theorem ident?_placeholderName? {t n : Text} (h : Term.placeholderName? t = some n) :
    Text.ident? n = some n.length := by
  fun_induction Term.placeholderName? t with
  | case1 t hident =>
    obtain rfl := Option.some.inj h
    exact hident
  | case2 t hident hdotted =>
    obtain rfl := Option.some.inj h
    exact ident?_lastSegment hdotted hident
  | case3 => cases h
  | case4 t _ _ inner _ _ ih => exact ih h
  | case5 => cases h

theorem ident?_of_ofText {t n : Text} (h : Term.ofText t = .placeholder n) :
    Text.ident? n = some n.length := by
  rw [Term.ofText] at h
  split at h
  · cases h
  · split at h
    · next hname =>
      obtain rfl := Term.placeholder.inj h
      exact ident?_placeholderName? hname
    · cases h

/-! ### Characters of names -/

/-- Word characters that the name of a parameter does not go on with: the marks that are not
alphabetic, the connectors other than the underscore, and the two join controls. -/
def isSilent (c : Nat) : Bool :=
  Unicode.inRanges c Unicode.nonAlphabeticMarks ||
    (Unicode.inRanges c Unicode.connectors && c != 0x5F) || c == 0x200C || c == 0x200D

/-- All other word characters belong to names. -/
theorem isNameChar_of_isWordChar {c : Nat} (h : isWordChar c = true) (hc : isSilent c = false) :
    isNameChar c = true := by
  by_cases hunder : c = 0x5F
  · subst hunder
    rfl
  rw [isSilent, bne_iff_ne.mpr hunder, Bool.and_true] at hc
  simp only [Bool.or_eq_false_iff] at hc
  obtain ⟨⟨⟨hmark, hconnector⟩, hjoin⟩, hjoin'⟩ := hc
  rw [isNameChar, beq_false_of_ne hunder, Bool.false_or, isAlphanumeric]
  rw [isWordChar] at h
  split
  · next hascii =>
    rw [if_pos hascii] at h
    rw [h, bne_iff_ne.mpr hunder, Bool.and_true]
  · next hascii =>
    rw [if_neg hascii, hmark, hconnector, hjoin, hjoin', Bool.or_false, Bool.or_false,
      Bool.or_false, Bool.or_false] at h
    rw [h, Bool.true_or, Bool.true_or]

theorem isNameChar_of_isIdentStart {b : UInt8} (hb : isIdentStart b = true) :
    isNameChar b.toNat = true := by
  have hb' := isIdentStart_isIdentByte hb
  have hlt : b.toNat < 0x80 := UInt8.lt_iff_toNat_lt.mp (isIdentByte_lt hb')
  have hword := isWordChar_of_isIdentByte hb'
  rw [isWordChar, if_pos hlt] at hword
  rw [isNameChar, isAlphanumeric, if_pos hlt, hword, Bool.true_and]
  exact Bool.or_not_self _

/-- Whether a text begins with a character of names. -/
def startsName (t : Text) : Bool := (Utf8.head? t).any fun (c, _) => isNameChar c

theorem run_eq_zero_of_startsName {t : Text} (h : startsName t = false) :
    Utf8.run isNameChar t = 0 := by
  cases t with
  | nil => rw [Utf8.run]
  | cons a r =>
    rw [startsName, Utf8.head?] at h
    rw [Utf8.run]
    rcases hread : Utf8.readHead a r with ⟨code, more⟩ | more
    · rw [hread, Option.any_some] at h
      simp [h]
    · rfl

/-! ### Reading back -/

/-- A text in which no part to skip begins and no parameter. -/
def Neutral (t : Text) : Prop := ∀ b ∈ t, b ≠ quote ∧ b ≠ doubleQuote ∧ b ≠ colon

instance : DecidablePred Neutral := fun t =>
  inferInstanceAs (Decidable (∀ b ∈ t, b ≠ quote ∧ b ≠ doubleQuote ∧ b ≠ colon))

theorem Neutral.append {t u : Text} (ht : Neutral t) (hu : Neutral u) : Neutral (t ++ u) := by
  intro b hb
  rcases List.mem_append.mp hb with hb | hb
  · exact ht b hb
  · exact hu b hb

theorem Neutral.drop {t : Text} (ht : Neutral t) (k : Nat) : Neutral (t.drop k) :=
  fun b hb => ht b (List.mem_of_mem_drop hb)

/-- Word characters are neutral. -/
theorem neutral_of_chars {t : Text} (h : Utf8.Chars isWordChar t) : Neutral t := by
  intro b hb
  refine ⟨?_, ?_, ?_⟩
  · rintro rfl
    exact h.not_mem (by decide) (by decide) hb
  · rintro rfl
    exact h.not_mem (by decide) (by decide) hb
  · rintro rfl
    exact h.not_mem (by decide) (by decide) hb

theorem usesIn_neutral {u : Text} (hu : Neutral u) (r : Text) :
    usesIn none (u ++ r) = usesIn none r := by
  induction u with
  | nil => rfl
  | cons b u ih =>
    obtain ⟨hquote, hdouble, hcolon⟩ := hu b List.mem_cons_self
    have hb : ¬(b = quote ∨ b = doubleQuote) := not_or.mpr ⟨hquote, hdouble⟩
    rw [List.cons_append, usesIn_plain hb hcolon]
    exact ih fun b hb => hu b (List.mem_cons_of_mem _ hb)

/-- **An identifier behind a colon is read up to its first character beyond the class of
names.** -/
theorem parametersOf_ident {n u w : Text} (hn : Text.ident? n = some n.length) (hu : Neutral u)
    (hw : Neutral w) (hnext : startsName w = false) :
    parametersOf (u ++ colon :: (n ++ w)) = [n.take (Utf8.run isNameChar n)] := by
  obtain ⟨b, r, rfl, hb, hr⟩ := ident?_eq_length_iff.mp hn
  have hrun : Utf8.run isNameChar (b :: r) = Utf8.run isNameChar r + 1 := by
    have hread := Utf8.readHead_ascii (isIdentByte_lt (isIdentStart_isIdentByte hb)) []
    rw [show b :: r = b :: ([] ++ r) from rfl, Utf8.run_cons hread,
      if_pos (isNameChar_of_isIdentStart hb), List.length_nil, Nat.zero_add, Nat.add_comm]
  -- the run ends within the identifier, whatever comes next
  have hsame := hr.run_append (run_eq_zero_of_startsName hnext)
  have hle := Utf8.run_le isNameChar r
  -- and what is left of the text has no other parameter
  have huses : parameterUses (u ++ colon :: (b :: r ++ w)) =
      [(b :: r).take (Utf8.run isNameChar (b :: r))] := by
    show usesIn none (u ++ colon :: b :: (r ++ w)) = _
    rw [usesIn_neutral hu, usesIn_name hb, hsame, List.take_append_of_le_length hle,
      List.drop_append_of_le_length hle, hrun, List.take_succ_cons]
    have hrest := usesIn_neutral (((neutral_of_chars hr).drop (Utf8.run isNameChar r)).append hw) []
    rw [List.append_nil] at hrest
    rw [hrest, usesIn, parameterUses]
  rw [parametersOf, huses]
  rfl

/-- Word characters none of which is silent belong to names. -/
theorem chars_isNameChar {t : Text} (h : Utf8.Chars isWordChar t)
    (hsilent : Utf8.Chars (fun c => !isSilent c) t) : Utf8.Chars isNameChar t := by
  have hboth : Utf8.Chars (fun c => isNameChar c && !isSilent c) t := by
    rw [Utf8.chars_iff] at hsilent ⊢
    rw [← hsilent]
    apply h.run_congr
    intro c hc
    cases hs : isSilent c with
    | true => simp
    | false => simp [isNameChar_of_isWordChar hc hs]
  apply hboth.mono
  intro c hc
  exact (Bool.and_eq_true_iff.mp hc).1

/-- **Main.**  A placeholder has the name of an identifier.  Between texts without quotes and
colons of which the second does not go on with the name, it is read back as one parameter: its
name up to the first character beyond the class of names.  So the name is read back as it is
exactly if all its characters belong to that class, as they do if none of them is silent. -/
theorem parametersOf_placeholder {t n u w : Text} (h : Term.ofText t = .placeholder n)
    (hu : Neutral u) (hw : Neutral w) (hnext : startsName w = false) :
    Text.ident? n = some n.length ∧
      parametersOf (u ++ colon :: (n ++ w)) = [n.take (Utf8.run isNameChar n)] ∧
      (parametersOf (u ++ colon :: (n ++ w)) = [n] ↔ Utf8.Chars isNameChar n) ∧
      (Utf8.Chars (fun c => !isSilent c) n → parametersOf (u ++ colon :: (n ++ w)) = [n]) := by
  have hn := ident?_of_ofText h
  have hread := parametersOf_ident hn hu hw hnext
  have hwhole : parametersOf (u ++ colon :: (n ++ w)) = [n] ↔ Utf8.Chars isNameChar n := by
    rw [hread, List.singleton_inj, Utf8.chars_iff]
    constructor
    · intro htake
      have hlen := congrArg List.length htake
      rwa [List.length_take, Nat.min_eq_left (Utf8.run_le _ _)] at hlen
    · intro hrun
      rw [hrun, List.take_length]
  refine ⟨hn, hread, hwhole, ?_⟩
  intro hsilent
  apply hwhole.mpr
  exact chars_isNameChar (chars_of_ident? hn) hsilent

theorem parametersOf_wrappedName :
    Term.ofText "QuotedStr( Daten . Größe )" = .placeholder "Größe" ∧
      Neutral "UPDATE T SET A = " ∧ Neutral ", B = 2" ∧ startsName ", B = 2" = false ∧
      Utf8.Chars (fun c => !isSilent c) "Größe" ∧
      parametersOf "UPDATE T SET A = :Größe, B = 2" = ["Größe"] := by
  have hterm : Term.ofText "QuotedStr( Daten . Größe )" = .placeholder "Größe" := by
    decide +kernel
  have hu : Neutral "UPDATE T SET A = " := by decide +kernel
  have hw : Neutral ", B = 2" := by decide +kernel
  have hnext : startsName ", B = 2" = false := by decide +kernel
  have hsilent : Utf8.Chars (fun c => !isSilent c) "Größe" :=
    Utf8.chars_iff.mpr (by decide +kernel)
  refine ⟨hterm, hu, hw, hnext, hsilent, ?_⟩
  have htext : (Text.ofString "UPDATE T SET A = :Größe, B = 2") =
      Text.ofString "UPDATE T SET A = " ++
        colon :: (Text.ofString "Größe" ++ Text.ofString ", B = 2") := by
    decide +kernel
  rw [htext]
  exact (parametersOf_placeholder hterm hu hw hnext).2.2.2 hsilent

/-- A name with a combining accent is cut short. -/
theorem parametersOf_combiningAccent :
    Term.ofText "Cafe\u0301" = .placeholder "Cafe\u0301" ∧
      parametersOf ":Cafe\u0301" = ["Cafe"] ∧ parametersOf ":Cafe\u0301" ≠ ["Cafe\u0301"] := by
  decide +kernel

end PascalSurvey.Sql
