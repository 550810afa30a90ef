/-
PascalSurvey/Proofs/Form/Line.lean

The lines of a form as they are written.  A line begins a component (`Opens`), it is a single word
that opens an item or closes a level (`IsWord`), or it has no part in the tree (`IsPlain`): a
property, or what goes on with the value of one.  Indentation, letter case and white space at the
end of a line make no difference, and each kind is told from the others: `ofText_opens`,
`ofText_item`, `ofText_close` and `ofText_plain`.

A property could be taken for another line only if its name began with one of the reserved words
that a form is built of (`firstWord_of_toLower`); `Ending = 5` closes nothing.
-/
import PascalSurvey.Form
import PascalSurvey.Proofs.Text.Fold
import PascalSurvey.Proofs.Text.Spelling
import PascalSurvey.Proofs.Text.White

namespace PascalSurvey.Form

open Ascii Text Utf8

/-! ### How lines are written -/

/-- The words that begin a component. -/
def headWords : List Text := ofStrings ["object", "inherited", "inline"]

/-- The reserved words that a form is built of. -/
def reservedWords : List Text := ofStrings ["object", "inherited", "inline", "end"]

/-- A name of a component or a class. -/
def IsName (name : Text) : Prop := Ink name ∧ colon ∉ name

instance (name : Text) : Decidable (IsName name) := inferInstanceAs (Decidable (_ ∧ _))

/-- A class may have an index behind it. -/
inductive WritesClass (className : Text) : Text → Prop
  | plain : WritesClass className className
  | indexed {gap index} : className ≠ [] → White gap → gap ≠ [] → Ink index →
      WritesClass className (className ++ (gap ++ index))

/-- The line that begins a component. -/
inductive Opens (name className : Text) : Text → Prop
  | intro {d word e₁ e₂ e₃ c e} : White d → toLower word ∈ headWords → White e₁ → IsName name →
      White e₂ → White e₃ → IsName className → WritesClass className c → White e →
      Opens name className
        (d ++ (word ++ space :: (e₁ ++ (name ++ e₂)) ++ colon :: (e₃ ++ (c ++ e))))

/-- A line of one word, in any case. -/
inductive IsWord (word : Text) : Text → Prop
  | intro {d w e} : White d → toLower w = word → White e → IsWord word (d ++ (w ++ e))

/-- Bytes that a line may begin with when it goes on with a value. -/
def valueMarks : List UInt8 := [quote, numberSign, lparen, rparen, lbrace, rbrace]

/-- A byte of binary data, or the brace behind it. -/
def isDataByte (b : UInt8) : Bool := isHexDigit b || b == rbrace

/-- A line that is no part of the tree. -/
inductive IsPlain : Text → Prop
  /-- A property.  The first identifier of its name is no reserved word. -/
  | property {d name} (value : Text) : White d → 0 < wordRun name →
      toLower (name.take (wordRun name)) ∉ reservedWords → IsPlain (d ++ (name ++ equals :: value))
  | continued {d mark} (value : Text) : White d → mark ∈ valueMarks → IsPlain (d ++ mark :: value)
  /-- Binary data, which a brace may end.  An empty line is a case of this. -/
  | digits {d t e} : White d → (∀ b ∈ t, isDataByte b = true) → White e →
      IsPlain (d ++ (t ++ e))

section
variable {c d e l name className t w word : Text}

/-! ### The line of a component -/

/-- The class is the first word behind the colon. -/
theorem class_written (hclass : Ink className) (hc : WritesClass className c) (hd : White d)
    (he : White e) : (words (trimEnd (d ++ (c ++ e)))).head?.getD [] = className := by
  have hend (hne : className ≠ []) : trimEnd (d ++ (className ++ e)) = d ++ (className ++ []) := by
    rw [← List.append_assoc, trimEnd_white he, trimEnd_append_ink hclass hne, List.append_nil]
  cases hc with
  | plain =>
    by_cases hne : c = []
    · have hall : trimEnd ([] ++ (d ++ e)) = [] := trimEnd_white (hd.append he) []
      rw [hne, List.nil_append, ← List.nil_append (d ++ e), hall, words_white .nil]
      rfl
    · rw [hend hne, words_cons hd hclass hne (inkRun_white .nil)]
      rfl
  | @indexed gap index hne hgap hgapne hindex =>
    by_cases hindexne : index = []
    · have htrim : trimEnd (d ++ (className ++ (gap ++ index) ++ e)) = d ++ (className ++ []) := by
        rw [hindexne, List.append_nil, List.append_assoc, ← List.append_assoc,
          trimEnd_white (hgap.append he), trimEnd_append_ink hclass hne, List.append_nil]
      rw [htrim, words_cons hd hclass hne (inkRun_white .nil)]
      rfl
    · have htrim : trimEnd (d ++ (className ++ (gap ++ index) ++ e)) =
          d ++ (className ++ (gap ++ index)) := by
        rw [← List.append_assoc, trimEnd_white he, ← List.append_assoc, ← List.append_assoc,
          trimEnd_append_ink hindex hindexne, List.append_assoc, List.append_assoc]
      rw [htrim, words_cons hd hclass hne (inkRun_append hgap hgapne _)]
      rfl

theorem isLetter_of_headWords (hw : toLower w ∈ headWords) : ∀ b ∈ w, isLetter b = true :=
  isLetter_of_toLower rfl
    (List.all_eq_true.mp ((by decide : ∀ k ∈ headWords, k.all isLower = true) _ hw))

theorem find?_componentWords (hw : word ∈ headWords) (t : Text) :
    componentWords.find? (startsWith (word ++ space :: t)) = some (word ++ [space]) := by
  simp only [headWords, ofStrings, List.map_cons, List.map_nil, List.mem_cons, List.not_mem_nil,
    or_false] at hw
  rcases hw with rfl | rfl | rfl <;> rfl

/-- **A line that begins a component** tells its name and its class. -/
theorem ofText_opens (h : Opens name className l) :
    Line.ofText l = .component (some (name, className)) := by
  obtain ⟨hd, hword, he₁, hname, he₂, he₃, hclass, hc, he⟩ := h
  rename_i d word e₁ e₂ e₃ c e
  have hink : Ink word := ink_of_isIdentByte fun b hb => by
    simp [isIdentByte, isLetter_of_headWords hword b hb]
  have hne : word ≠ [] := by
    rintro rfl
    exact absurd hword (by decide)
  have htrim : trim (d ++ (word ++ space :: (e₁ ++ (name ++ e₂)) ++ colon :: (e₃ ++ (c ++ e)))) =
      word ++ space :: ((e₁ ++ (name ++ e₂)) ++ colon :: trimEnd (e₃ ++ (c ++ e))) := by
    rw [trim, trimStart_white hd, List.append_assoc, trimStart_append_ink hink hne,
      ← List.append_assoc, trimEnd_stop (by decide) (by decide)]
    simp
  have hlower (t : Text) : toLower (word ++ space :: t) = toLower word ++ space :: toLower t := by
    rw [toLower, List.map_append]
    rfl
  have hlen (t : Text) : (word ++ space :: t).drop (toLower word ++ [space]).length = t := by
    have hcons : word ++ space :: t = (word ++ [space]) ++ t := by simp
    rw [hcons, List.drop_left' (by simp [toLower])]
  have hcolon : colon ∉ e₁ ++ (name ++ e₂) := by
    simp only [List.mem_append, not_or]
    exact ⟨he₁.not_mem (by decide) (by decide), hname.2, he₂.not_mem (by decide) (by decide)⟩
  rw [Line.ofText, htrim]
  simp only [hlower, find?_componentWords hword, hlen, cut?_append hcolon, Option.map_some,
    trim_white_ink he₁ hname.1 he₂, class_written hclass.1 hc he₃ he]

/-! ### Lines of one word -/

theorem trim_word (hink : ∀ b ∈ word, b < 0x80 ∧ isBlankChar b.toNat = false)
    (h : IsWord word l) : toLower (trim l) = word := by
  obtain ⟨hd, rfl, he⟩ := h
  rename_i d w e
  have hw : Ink w := chars_ascii fun b hb => by
    obtain ⟨hascii, hblank⟩ := hink _ (List.mem_map_of_mem hb)
    refine ⟨(lower_lt_iff b).mp hascii, ?_⟩
    rw [Bool.not_eq_true']
    by_cases hup : isUpper b = true
    · exact not_isBlankChar_of_isIdentByte (by simp [isIdentByte, isLetter, hup])
    · rwa [lower, if_neg hup] at hblank
  rw [trim_white_ink hd hw he]

theorem ofText_item (h : IsWord "item" l) : Line.ofText l = .item := by
  rw [Line.ofText, trim_word (by decide +kernel) h]
  rfl

/-- Both the last item of a collection and any other level are closed. -/
theorem ofText_close (h : IsWord "end" l ∨ IsWord "end>" l) : Line.ofText l = .close := by
  rcases h with h | h
  · rw [Line.ofText, trim_word (by decide +kernel) h]
    rfl
  · rw [Line.ofText, trim_word (by decide +kernel) h]
    rfl

/-! ### Lines that are no part of the tree -/

/-- What a line of the tree begins with in lower case, unless it is one word. -/
def lineWords : List Text := ofStrings ["object ", "inherited ", "inline ", "end>", "end "]

/-- The lines of one word. -/
def singleWords : List Text := ofStrings ["item", "end"]

theorem startsWith_eq_false (h : ∀ r, t ≠ word ++ r) : startsWith t word = false := by
  rw [Bool.eq_false_iff]
  intro hstart
  obtain ⟨r, hr⟩ := Option.isSome_iff_exists.mp hstart
  exact h r (after?_eq_some_iff.mp hr)

theorem ofText_other (hstart : ∀ k ∈ lineWords, ∀ r, toLower (trim l) ≠ k ++ r)
    (hsingle : toLower (trim l) ∉ singleWords) : Line.ofText l = .other := by
  have hstart : ∀ k ∈ lineWords, startsWith (toLower (trim l)) k = false :=
    fun k hk => startsWith_eq_false (hstart k hk)
  simp only [lineWords, ofStrings, List.map_cons, List.map_nil, List.forall_mem_cons] at hstart
  obtain ⟨hobject, hinherited, hinline, hlast, hend, -⟩ := hstart
  simp only [singleWords, ofStrings, List.map_cons, List.map_nil, List.mem_cons, List.not_mem_nil,
    or_false, not_or] at hsingle
  have hfind : componentWords.find? (startsWith (toLower (trim l))) = none := by
    simp [componentWords, hobject, hinherited, hinline]
  rw [Line.ofText]
  simp only [hfind, hsingle.1, hsingle.2, hlast, hend, Bool.false_eq_true, or_self, if_false]

/-- A run of one class keeps the other from beginning. -/
theorem run_eq_zero_of_run {p q : Nat → Bool} (hpq : ∀ code, q code = true → p code = false)
    (h : 0 < run q t) (u : Text) : run p (t ++ u) = 0 := by
  cases t with
  | nil => simp [run] at h
  | cons a r =>
    rw [run] at h
    rcases hread : readHead a r with ⟨code, more⟩ | more
    · have hread' : readHead a (r ++ u) = .scalar code more :=
        readHead_congr hread (List.take_append_of_le_length (readHead_scalar hread).1)
      have hq : q code = true := by
        by_contra hq
        simp [hread, hq] at h
      rw [List.cons_append, run, hread']
      simp [hpq code hq]
    · simp [hread] at h

/-- **A line that reads like a keyword with white space or `>` behind it begins with that word.** -/
theorem firstWord_of_toLower {name v r : Text} {b : UInt8} (hword : ∀ c ∈ word, isLower c = true)
    (hb : b = space ∨ b = greater) (h : toLower (name ++ equals :: v) = word ++ b :: r) :
    toLower (name.take (wordRun name)) = word := by
  obtain ⟨u, z, hsplit, hu, hz⟩ := List.map_eq_append_iff.mp h
  obtain ⟨b', z, rfl, hb', -⟩ := List.map_eq_cons_iff.mp hz
  have hstop (x : Text) : wordRun (b' :: x) = 0 := by
    have hsmall : isLower b = false := by rcases hb with rfl | rfl <;> decide
    rw [lower_eq_self (by rw [hb', hsmall])] at hb'
    rcases hb with rfl | rfl <;> rw [hb'] <;> exact run_eq_zero (by decide) (by decide) x
  have hletters := isLetter_of_toLower hu hword
  have hrun : wordRun name = u.length := by
    have hequals : wordRun (equals :: v) = 0 := run_eq_zero (by decide) (by decide) v
    have hname : wordRun (name ++ equals :: v) = wordRun name := by
      rw [wordRun, run_separator (by decide), ← wordRun, ← wordRun, hequals]
      split
      · next hall => rw [hall, Nat.add_zero]
      · rfl
    have hident (c : UInt8) (hc : c ∈ u) : isIdentByte c = true := by
      simp [isIdentByte, hletters c hc]
    rw [← hname, hsplit, wordRun, run_append fun c hc =>
      ⟨isIdentByte_lt (hident c hc), isWordChar_of_isIdentByte (hident c hc)⟩, ← wordRun, hstop,
      Nat.add_zero]
  have hle : u.length ≤ name.length := hrun ▸ run_le _ _
  have htake : name.take u.length = u := by
    have hfront : (name ++ equals :: v).take u.length = name.take u.length :=
      List.take_append_of_le_length hle
    rw [← hfront, hsplit, List.take_left' rfl]
  rw [hrun, htake]
  exact hu

theorem ofText_property {name v : Text} (hd : White d) (hname : 0 < wordRun name)
    (hfirst : toLower (name.take (wordRun name)) ∉ reservedWords) :
    Line.ofText (d ++ (name ++ equals :: v)) = .other := by
  have htrim : trim (d ++ (name ++ equals :: v)) = name ++ equals :: trimEnd v := by
    have hink : blankRun (name ++ equals :: v) = 0 :=
      run_eq_zero_of_run (fun _ => not_isBlankChar_of_isWordChar) hname _
    rw [trim, trimStart_white hd, trimStart, hink, List.drop_zero,
      trimEnd_stop (by decide) (by decide)]
  apply ofText_other
  · intro k hk r hr
    obtain ⟨b, hb, hcut, hreserved⟩ := (by decide : ∀ k ∈ lineWords, ∃ b ∈ [space, greater],
      k = k.dropLast ++ [b] ∧ k.dropLast ∈ reservedWords) k hk
    have hsmall : ∀ c ∈ k.dropLast, isLower c = true :=
      List.all_eq_true.mp ((by decide : ∀ w ∈ reservedWords, w.all isLower = true) _ hreserved)
    rw [htrim, hcut, List.append_assoc] at hr
    rw [firstWord_of_toLower hsmall (by simpa using hb) hr] at hfirst
    exact hfirst hreserved
  · intro hsingle
    have hequals : equals ∈ toLower (name ++ equals :: trimEnd v) :=
      List.mem_map_of_mem (f := lower) (List.mem_append_right name List.mem_cons_self)
    rw [htrim] at hsingle
    exact (by decide : ∀ w ∈ singleWords, equals ∉ w) _ hsingle hequals

theorem ofText_continued {mark : UInt8} {v : Text} (hd : White d) (hmark : mark ∈ valueMarks) :
    Line.ofText (d ++ mark :: v) = .other := by
  obtain ⟨hascii, hink, hlower, hletter⟩ := (by decide +kernel : ∀ m ∈ valueMarks,
    m < 0x80 ∧ isBlankChar m.toNat = false ∧ lower m = m ∧ isLetter m = false) mark hmark
  have htrim : toLower (trim (d ++ mark :: v)) = mark :: toLower (trimEnd v) := by
    rw [trim, trimStart_white hd, trimStart_ink hascii hink, ← List.nil_append (mark :: v),
      trimEnd_stop hascii hink, List.nil_append, toLower, List.map_cons, hlower, toLower]
  -- what is part of the tree begins with a letter
  have hhead {k r : Text} (hk : k.head?.any isLetter = true)
      (heq : mark :: toLower (trimEnd v) = k ++ r) : False := by
    cases k with
    | nil => cases hk
    | cons c k =>
      rw [List.head?_cons, Option.any_some, ← (List.cons.inj heq).1, hletter] at hk
      cases hk
  apply ofText_other
  · intro k hk r hr
    rw [htrim] at hr
    exact hhead ((by decide : ∀ k ∈ lineWords, k.head?.any isLetter = true) k hk) hr
  · intro hsingle
    rw [htrim] at hsingle
    exact hhead ((by decide : ∀ w ∈ singleWords, w.head?.any isLetter = true) _ hsingle)
      (List.append_nil _).symm

theorem isDataByte_lower {b : UInt8} (h : isDataByte b = true) : isDataByte (lower b) = true := by
  rw [lower]
  split
  · next hup =>
    simp only [isDataByte, isHexDigit, isDigit, isUpper, Bool.or_eq_true, Bool.and_eq_true,
      decide_eq_true_eq, beq_iff_eq, UInt8.le_iff_toNat_le, UInt8.toNat_add, UInt8.reduceToNat,
      ← UInt8.toNat_inj, rbrace] at h hup ⊢
    omega
  · exact h

theorem ink_of_isDataByte (h : ∀ b ∈ t, isDataByte b = true) : Ink t := by
  refine chars_ascii fun b hb => ?_
  obtain hhex | rfl : isHexDigit b = true ∨ b = rbrace := by simpa [isDataByte] using h b hb
  · have hident : isIdentByte b = true := by
      simp only [isHexDigit, isIdentByte, isLetter, isUpper, isLower, isDigit, Bool.or_eq_true,
        Bool.and_eq_true, decide_eq_true_eq, beq_iff_eq, UInt8.le_iff_toNat_le,
        UInt8.reduceToNat] at hhex ⊢
      omega
    exact ⟨isIdentByte_lt hident, by rw [not_isBlankChar_of_isIdentByte hident]; rfl⟩
  · decide

theorem ofText_digits (hd : White d) (ht : ∀ b ∈ t, isDataByte b = true) (he : White e) :
    Line.ofText (d ++ (t ++ e)) = .other := by
  have htrim : trim (d ++ (t ++ e)) = t := trim_white_ink hd (ink_of_isDataByte ht) he
  have hlower : (toLower t).all isDataByte = true := by
    rw [List.all_eq_true]
    intro b hb
    obtain ⟨c, hc, rfl⟩ := List.mem_map.mp hb
    exact isDataByte_lower (ht c hc)
  apply ofText_other
  · intro k hk r hr
    rw [htrim] at hr
    rw [hr, List.all_append, (by decide : ∀ k ∈ lineWords, k.all isDataByte = false) k hk] at hlower
    cases hlower
  · rw [htrim]
    intro hsingle
    rw [(by decide : ∀ w ∈ singleWords, w.all isDataByte = false) _ hsingle] at hlower
    cases hlower

/-- **Properties and their values** are no part of the tree. -/
theorem ofText_plain (h : IsPlain l) : Line.ofText l = .other := by
  cases h with
  | property v hd hname hfirst => exact ofText_property hd hname hfirst
  | continued v hd hmark => exact ofText_continued hd hmark
  | digits hd ht he => exact ofText_digits hd ht he

end

end PascalSurvey.Form
