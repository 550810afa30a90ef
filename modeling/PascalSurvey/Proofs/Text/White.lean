/-
PascalSurvey/Proofs/Text/White.lean

White space of all characters, and what stands in it.  `White` texts are of white space alone, `Ink`
texts have none.  A text is trimmed character by character from both ends (`trimEnd_char`), so white
space goes and ink stays (`trimEnd_white`, `trimEnd_append_ink`).  The words of a text that is
written as ink between white space are that ink (`words_cons`), whatever white space stands around
it (`squeeze_white`), and the text is cut at its first white space (`cutBlank?_ink`).
-/
import PascalSurvey.Proofs.Text.Elastic
import PascalSurvey.Proofs.Text.Valid
import PascalSurvey.Proofs.Text.Word

namespace PascalSurvey.Text

open Ascii Utf8

/-- White space alone. -/
abbrev White (e : Text) : Prop := Chars isBlankChar e

/-- Whole characters without white space. -/
abbrev Ink (w : Text) : Prop := Chars (fun c => !isBlankChar c) w

theorem not_isBlankChar_of_isWordChar {c : Nat} (h : isWordChar c = true) :
    isBlankChar c = false := by
  by_contra hblank
  rw [Bool.not_eq_false] at hblank
  rw [not_isWordChar_of_isBlankChar hblank] at h
  cases h

/-- Identifiers are ink. -/
theorem ink_of_isWordChar {w : Text} (h : Chars isWordChar w) : Ink w :=
  h.mono fun _ hword => by rw [not_isBlankChar_of_isWordChar hword]; rfl

theorem ink_of_isIdentByte {w : Text} (h : ∀ b ∈ w, isIdentByte b = true) : Ink w :=
  chars_ascii fun b hb =>
    ⟨isIdentByte_lt (h b hb), by rw [not_isBlankChar_of_isIdentByte (h b hb)]; rfl⟩

/-! ### From the front -/

section
variable {d e t u w z : Text}

theorem run_white (hd : White d) (t : Text) :
    run isBlankChar (d ++ t) = d.length + run isBlankChar t := by
  induction hd with
  | nil => exact (Nat.zero_add _).symm
  | @cons a x d code hread hcode _ ih =>
    rw [List.cons_append, List.append_assoc, run_cons hread, if_pos hcode, ih, List.length_cons,
      List.length_append]
    omega

theorem trimStart_white (hd : White d) (t : Text) : trimStart (d ++ t) = trimStart t := by
  rw [trimStart, blankRun, run_white hd, List.drop_length_add_append]
  rfl

theorem run_ink (hw : Ink w) (hne : w ≠ []) (t : Text) : run isBlankChar (w ++ t) = 0 := by
  cases hw with
  | nil => exact absurd rfl hne
  | cons hread hcode _ =>
    rw [List.cons_append, List.append_assoc, run_cons hread, if_neg]
    simpa using hcode

theorem trimStart_append_ink (hw : Ink w) (hne : w ≠ []) (t : Text) :
    trimStart (w ++ t) = w ++ t := by
  rw [trimStart, blankRun, run_ink hw hne, List.drop_zero]

/-! ### From the end -/

/-- A byte in the middle of a character begins none. -/
theorem head?_continuation {b : UInt8} (hb : isContinuation b = true) (r : Text) :
    head? (b :: r) = none := by
  rw [head?]
  rcases hread : readHead b r with ⟨code, more⟩ | more
  · rw [(readHead_scalar hread).2.1] at hb
    cases hb
  · rfl

/-- Where a character begins behind the first byte, the bytes are not one. -/
theorem code?_lead {a : UInt8} (ha : isContinuation a = false) (c : UInt8) (r : Text) :
    code? (c :: a :: r) = none := by
  rw [code?, head?]
  rcases hread : readHead c (a :: r) with ⟨code, more⟩ | more
  · have hmore : more ≠ (a :: r).length := by
      rintro rfl
      have := readHead_continues hread a (by simp)
      rw [this] at ha
      cases ha
    simpa using hmore
  · rfl

/-- White space has at most three bytes. -/
theorem not_isBlankChar_of_four {a b : UInt8} (n : Nat) (ha : ¬a < 0xF0) (hb : follows a b = true) :
    isBlankChar (((a.toNat - 0xF0) * 64 + low b) * 4096 + n) = false := by
  have hbig : 16 ≤ (a.toNat - 0xF0) * 64 + low b := by
    show 16 ≤ (a.toNat - 0xF0) * 64 + (b.toNat - 0x80)
    rw [UInt8.not_lt] at ha
    simp only [UInt8.le_iff_toNat_le, UInt8.reduceToNat] at ha
    by_cases hfirst : a = 0xF0
    · subst hfirst
      have hsecond : (0x90 : UInt8) ≤ b := by
        simp only [follows, Bool.and_eq_true, decide_eq_true_eq] at hb
        exact hb.1
      simp only [UInt8.le_iff_toNat_le, UInt8.reduceToNat] at hsecond
      omega
    · have hne : a.toNat ≠ 0xF0 := fun h => hfirst (UInt8.toNat_inj.mp h)
      omega
  generalize (a.toNat - 0xF0) * 64 + low b = k at hbig
  rw [Bool.eq_false_iff]
  intro hblank
  simp only [isBlankChar, Bool.or_eq_true, Bool.and_eq_true, decide_eq_true_eq,
    beq_iff_eq] at hblank
  omega

/-- **Trimming from behind takes one character, or stops at it.** -/
theorem dropBlanksBack_char {a : UInt8} {x : Text} {code : Nat}
    (hread : readHead a x = .scalar code x.length) (r : Text) :
    dropBlanksBack ((a :: x).reverse ++ r) =
      if isBlankChar code then dropBlanksBack r else (a :: x).reverse ++ r := by
  have hcode : code? (a :: x) = some code := by simp [code?, head?, hread]
  have hlead : isContinuation a = false := (readHead_scalar hread).2.1
  have hcont : ∀ b ∈ x, isContinuation b = true := by
    simpa only [List.take_length] using readHead_continues hread
  have hbeyond {b : UInt8} (hb : b ∈ x) : ¬b < 0x80 :=
    UInt8.not_lt.mpr (le_of_isContinuation (hcont b hb))
  -- two or three bytes that are not the character are none at all
  have htail {b : UInt8} (hb : b ∈ x) (y : Text) : (code? (b :: y)).any isBlankChar = false := by
    rw [code?, head?_continuation (hcont b hb), Option.bind_eq_bind, Option.bind_none,
      Option.any_none]
  have hfront (c b : UInt8) : (code? [c, a, b]).any isBlankChar = false := by
    rw [code?_lead hlead, Option.any_none]
  revert hread
  fun_cases readHead a x with
  | case1 x hascii =>
    intro h
    obtain ⟨rfl, hlen⟩ := Head.scalar.inj h
    obtain rfl := List.length_eq_zero_iff.mp hlen.symm
    rw [List.reverse_singleton, List.singleton_append, dropBlanksBack.eq_def]
    simp only [hascii, if_true]
  | case3 hascii hlow htwo b x hb =>
    intro h
    obtain ⟨-, hlen⟩ := Head.scalar.inj h
    obtain rfl : x = [] := List.length_eq_zero_iff.mp (by simpa using hlen)
    show dropBlanksBack (b :: a :: r) = if isBlankChar code then dropBlanksBack r else b :: a :: r
    rw [dropBlanksBack.eq_def]
    simp only [hbeyond List.mem_cons_self, hcode, Option.any_some, if_false]
    split
    · rfl
    · cases r with
      | nil => rfl
      | cons c r => simp only [hfront, Bool.false_eq_true, if_false]
  | case6 hascii hlow htwo hthree b hb c x hc =>
    intro h
    obtain ⟨-, hlen⟩ := Head.scalar.inj h
    obtain rfl : x = [] := List.length_eq_zero_iff.mp (by simpa using hlen)
    show dropBlanksBack (c :: b :: a :: r) =
      if isBlankChar code then dropBlanksBack r else c :: b :: a :: r
    rw [dropBlanksBack.eq_def]
    simp only [hbeyond (b := c) (by simp), htail (b := b) (by simp), hcode, Option.any_some,
      Bool.false_eq_true, if_false]
  | case11 hascii hlow htwo hthree hfour b hb c hc d x hd =>
    intro h
    obtain ⟨hcode', hlen⟩ := Head.scalar.inj h
    obtain rfl : x = [] := List.length_eq_zero_iff.mp (by simpa using hlen)
    have hink : isBlankChar code = false := by
      have hsum (k : Nat) : (k * 64 + low c) * 64 + low d = k * 4096 + (low c * 64 + low d) := by
        omega
      rw [← hcode', hsum]
      exact not_isBlankChar_of_four _ hthree hb
    show dropBlanksBack (d :: c :: b :: a :: r) =
      if isBlankChar code then dropBlanksBack r else d :: c :: b :: a :: r
    rw [dropBlanksBack.eq_def]
    simp only [hbeyond (b := d) (by simp), htail (b := c) (by simp), htail (b := b) (by simp), hink,
      Bool.false_eq_true, if_false]
  | _ =>
    intro h
    cases h

/-- Behind any text, trimming takes one character or stops at it. -/
theorem trimEnd_char {a : UInt8} {x : Text} {code : Nat}
    (hread : readHead a x = .scalar code x.length) (u : Text) :
    trimEnd (u ++ a :: x) = if isBlankChar code then trimEnd u else u ++ a :: x := by
  rw [trimEnd, List.reverse_append, dropBlanksBack_char hread]
  split
  · rfl
  · rw [← List.reverse_append, List.reverse_reverse]

theorem trimEnd_white (he : White e) (u : Text) : trimEnd (u ++ e) = trimEnd u := by
  induction he generalizing u with
  | nil => rw [List.append_nil]
  | @cons a x e code hread hcode _ ih =>
    rw [← List.cons_append, ← List.append_assoc, ih, trimEnd_char hread, if_pos hcode]

theorem trimEnd_append_ink (hw : Ink w) (hne : w ≠ []) (u : Text) : trimEnd (u ++ w) = u ++ w := by
  induction hw generalizing u with
  | nil => exact absurd rfl hne
  | @cons a x w code hread hcode _ ih =>
    rw [← List.cons_append, ← List.append_assoc]
    rcases List.eq_nil_or_concat w with rfl | ⟨_, _, rfl⟩
    · rw [List.append_nil, trimEnd_char hread, if_neg]
      simpa using hcode
    · exact ih (by simp) _

/-- **Trimming takes off the white space around ink**, and nothing else. -/
theorem trim_white_ink (hd : White d) (hw : Ink w) (he : White e) : trim (d ++ (w ++ e)) = w := by
  by_cases hne : w = []
  · have hall : trimStart (d ++ e) = [] := by
      rw [trimStart, blankRun, chars_iff.mp (hd.append he), List.drop_length]
    rw [hne, List.nil_append, trim, hall]
    rfl
  · rw [trim, trimStart_white hd, trimStart_append_ink hw hne, trimEnd_white he]
    exact trimEnd_append_ink hw hne []

/-- And what stands in front of it. -/
theorem trimEnd_stop {c : UInt8} (hc : c < 0x80) (hink : isBlankChar c.toNat = false) (u v : Text) :
    trimEnd (u ++ c :: v) = u ++ c :: trimEnd v := by
  have hstop : dropBlanksBack (c :: u.reverse) = c :: u.reverse := by
    rw [dropBlanksBack.eq_def]
    simp [hc, hink]
  have hsplit : (u ++ c :: v).reverse = v.reverse ++ c :: u.reverse := by simp
  rw [trimEnd, hsplit, dropBlanksBack_ascii hc, hstop, trimEnd]
  split
  · next hnil => simp [hnil]
  · simp

theorem inkRun_append (he : White e) (hne : e ≠ []) (t : Text) : inkRun (e ++ t) = 0 := by
  cases he with
  | nil => exact absurd rfl hne
  | cons hread hcode _ =>
    rw [inkRun, List.cons_append, List.append_assoc, run_cons hread, if_neg]
    simpa using hcode

theorem inkRun_white (he : White e) : inkRun e = 0 := by
  by_cases hne : e = []
  · rw [hne, inkRun, run]
  · rw [← List.append_nil e, inkRun_append he hne]

/-- **The first word** is the ink behind the white space in front. -/
theorem words_cons (hd : White d) (hw : Ink w) (hne : w ≠ []) {r : Text} (hr : inkRun r = 0) :
    words (d ++ (w ++ r)) = w :: words r := by
  have hlead : blankRun (d ++ (w ++ r)) = d.length := by
    rw [blankRun, run_white hd, run_ink hw hne, Nat.add_zero]
  have hink : inkRun (w ++ r) = w.length := by
    rw [inkRun, hw.run_append hr, chars_iff.mp hw]
  have hpos : w.length ≠ 0 := fun h => hne (List.length_eq_zero_iff.mp h)
  rw [words]
  simp only [hlead, List.drop_left', hink, List.take_left']
  rw [if_neg (by simp only [List.length_append]; omega), ← List.append_assoc,
    List.drop_left' (List.length_append ..)]

theorem words_white (he : White e) : words e = [] := by
  have hlead : blankRun e = e.length := chars_iff.mp he
  rw [words]
  simp only [hlead, List.drop_length]
  rw [if_pos (Or.inl (by rw [inkRun, run]))]

theorem mem_words (h : w ∈ words t) : Ink w ∧ w ≠ [] := by
  fun_induction words t with
  | case1 => cases h
  | case2 t lead n hpos ih =>
    rcases List.mem_cons.mp h with rfl | h
    · refine ⟨chars_take_run _ _, fun hnil => hpos (Or.inl ?_)⟩
      have hle : n ≤ (t.drop lead).length := run_le _ _
      have hlen := congrArg List.length hnil
      rwa [List.length_take, Nat.min_eq_left hle] at hlen
    · exact ih h

/-- Words between single spaces, and white space around them all. -/
theorem words_join (hd : White d) {ws : List Text} (hws : ∀ w ∈ ws, Ink w ∧ w ≠ []) (he : White e) :
    words (d ++ (join [space] ws ++ e)) = ws := by
  induction ws generalizing d with
  | nil => exact words_white (hd.append he)
  | cons w ws ih =>
    obtain ⟨hw, hne⟩ := hws w List.mem_cons_self
    cases ws with
    | nil =>
      rw [join, List.intercalate_singleton, words_cons hd hw hne (inkRun_white he), words_white he]
    | cons w' ws =>
      have hspace : White [space] := chars_ascii (by decide +kernel)
      rw [join, List.intercalate_cons_cons, List.append_assoc, List.append_assoc,
        words_cons hd hw hne (inkRun_append hspace (by decide) _)]
      exact congrArg _ (ih hspace fun w hw => hws w (List.mem_cons_of_mem _ hw))

/-- **A text with single spaces is what its words say**, whatever white space stands around it. -/
theorem squeeze_white (hd : White d) (ht : squeeze t = t) (he : White e) :
    squeeze (d ++ (t ++ e)) = t := by
  rw [← ht, squeeze, squeeze, words_join hd (fun _ => mem_words) he]

theorem join_ends (sep : Text) {ws : List Text} (h : ws ≠ []) :
    ∃ v, ∃ w ∈ ws, join sep ws = v ++ w := by
  induction ws with
  | nil => exact absurd rfl h
  | cons w ws ih =>
    cases ws with
    | nil => exact ⟨[], w, List.mem_cons_self, List.intercalate_singleton⟩
    | cons w' ws =>
      obtain ⟨v, last, hmem, hv⟩ := ih (List.cons_ne_nil _ _)
      refine ⟨w ++ sep ++ v, last, List.mem_cons_of_mem _ hmem, ?_⟩
      rw [join, List.intercalate_cons_cons, List.append_assoc _ v, ← hv]
      simp [join]

/-- So it ends with ink. -/
theorem trimEnd_squeezed (h : squeeze t = t) (hne : t ≠ []) (u : Text) :
    trimEnd (u ++ t) = u ++ t := by
  have hwords : words t ≠ [] := by
    intro hnil
    rw [squeeze, hnil] at h
    exact hne h.symm
  obtain ⟨v, w, hw, hvw⟩ := join_ends [space] hwords
  obtain ⟨hink, hwne⟩ := mem_words hw
  rw [← h, squeeze, hvw, ← List.append_assoc, trimEnd_append_ink hink hwne]

/-! ### The first white space -/

theorem cutBlank?_continues {x : Text} (hx : ∀ b ∈ x, isContinuation b = true) (z : Text) :
    cutBlank? (x ++ z) = (cutBlank? z).map fun (u, v) => (x ++ u, v) := by
  induction x with
  | nil => simp
  | cons b x ih =>
    rw [List.cons_append, cutBlank?, head?_continuation (hx b List.mem_cons_self),
      ih fun c hc => hx c (List.mem_cons_of_mem _ hc), Option.map_map]
    rfl

/-- A character in front of a text. -/
theorem cutBlank?_char {a : UInt8} {x : Text} {code : Nat}
    (hread : readHead a x = .scalar code x.length) (z : Text) :
    cutBlank? (a :: (x ++ z)) =
      if isBlankChar code then some ([], z)
      else (cutBlank? z).map fun (u, v) => (a :: x ++ u, v) := by
  have hcont : ∀ b ∈ x, isContinuation b = true := by
    simpa only [List.take_length] using readHead_continues hread
  rw [cutBlank?, head?, readHead_append hread, cutBlank?_continues hcont, Option.map_map]
  simp only [List.drop_succ_cons, List.drop_left']
  rfl

theorem cutBlank?_byte {c : UInt8} (hc : c < 0x80) (hink : isBlankChar c.toNat = false) (z : Text) :
    cutBlank? (c :: z) = (cutBlank? z).map fun (u, v) => (c :: u, v) := by
  rw [← List.nil_append z, cutBlank?_char (readHead_ascii hc []), if_neg (by simp [hink])]
  rfl

/-- White space is looked for behind the ink. -/
theorem cutBlank?_ink (hw : Ink w) (z : Text) :
    cutBlank? (w ++ z) = (cutBlank? z).map fun (x, y) => (w ++ x, y) := by
  induction hw with
  | nil => simp
  | @cons a x w code hread hcode _ ih =>
    rw [List.cons_append, List.append_assoc, cutBlank?_char hread, if_neg (by simpa using hcode),
      ih, Option.map_map]
    simp [Function.comp_def]

/-- Of white space, one character is cut off. -/
theorem cutBlank?_white (he : White e) (hne : e ≠ []) (z : Text) :
    ∃ e', White e' ∧ cutBlank? (e ++ z) = some ([], e' ++ z) := by
  cases he with
  | nil => exact absurd rfl hne
  | @cons a x e code hread hcode he =>
    refine ⟨e, he, ?_⟩
    rw [List.cons_append, List.append_assoc, cutBlank?_char hread, if_pos hcode]

end

end PascalSurvey.Text
