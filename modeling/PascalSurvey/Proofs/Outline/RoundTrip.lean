/-
PascalSurvey/Proofs/Outline/RoundTrip.lean

Reading uses clauses as they are written.  An item in which only blanks are left is read back
(`Writes.ofItem?`).  In the overlay that says where a clause ends, paths are blank as well, so that no
semicolon stands in it and no word that begins a section (`quiet_join`); in the one that is read they
stand in quotes, and the clause is split between its items (`split_join`).

Main result: a program has the entries that are written in its clause, and so has the interface
in its outline (`uses_written`).
-/
import PascalSurvey.Proofs.Outline.Clause

namespace PascalSurvey.Outline

open Ascii Source

/-! ### Reading what is written -/

theorem Segment.ascii {s : Text} (hs : Segment s) :
    ∀ b ∈ s, b < 0x80 ∧ isWordChar b.toNat = true ∧ isBlankChar b.toNat = false := fun b hb =>
  have hid := hs.bytes b hb
  ⟨isIdentByte_lt hid, isWordChar_of_isIdentByte hid, not_isBlankChar_of_isIdentByte hid⟩

/-- A segment is read up to where no word character goes on. -/
theorem Segment.identFold?_append {s : Text} (hs : Segment s) {r : Text}
    (hr : Text.wordRun r = 0) : Text.identFold? (s ++ r) = some s.length := by
  obtain ⟨b, s, rfl, hb⟩ := hs.start
  have hlt : b < 0x80 := (hs.ascii b List.mem_cons_self).1
  have hne {c : UInt8} (hc : 0x80 ≤ c) : b ≠ c := by
    rintro rfl
    exact absurd hlt (UInt8.not_lt.mpr hc)
  have hword : Text.wordRun (s ++ r) = s.length := by
    rw [Text.wordRun, Utf8.run_append, ← Text.wordRun, hr, Nat.add_zero]
    intro c hc
    obtain ⟨hascii, hwordChar, -⟩ := hs.ascii c (List.mem_cons_of_mem _ hc)
    exact ⟨hascii, hwordChar⟩
  have hstart : Text.identStartFold? (b :: (s ++ r)) = some 1 := by
    rw [Text.identStartFold?_cons, if_neg fun h => hne (by decide) h.1,
      if_neg fun h => hne (by decide) h.1, if_pos hb]
  rw [List.cons_append, Text.identFold?, hstart]
  show some (1 + Text.wordRun (s ++ r)) = _
  rw [hword, List.length_cons, Nat.add_comm]

section
variable {name t r : Text}

theorem wordRun_separator {c : UInt8} (hc : isSeparator c = true) (r : Text) :
    Text.wordRun (c :: r) = 0 := by
  obtain ⟨hlt, hid⟩ := isSeparator_iff.mp hc
  exact Utf8.run_eq_zero hlt ((isWordChar_ascii hlt).trans hid) r

theorem isSeparator_blank {b : UInt8} (hb : b < 0x80 ∧ isBlankChar b.toNat = true) :
    isSeparator b = true := by
  rw [isSeparator_iff, ← isWordChar_ascii hb.1]
  exact ⟨hb.1, not_isWordChar_of_isBlankChar hb.2⟩

/-- No word character goes on behind blanks, or behind nothing. -/
theorem wordRun_blanks {d : Text} (hd : Blanks d) (hr : Text.wordRun r = 0) :
    Text.wordRun (d ++ r) = 0 := by
  cases d with
  | nil => exact hr
  | cons b d => exact wordRun_separator (isSeparator_blank (hd b List.mem_cons_self)) _

theorem WritesName.head {gap : Text → Prop} (h : WritesName gap name t) :
    ∃ b r, t = b :: r ∧ isIdentByte b = true := by
  cases h with
  | segment hs | dotted hs =>
    obtain ⟨b, s, rfl, hb⟩ := hs.start
    exact ⟨b, _, rfl, isIdentStart_isIdentByte hb⟩

theorem WritesName.last {gap : Text → Prop} (h : WritesName gap name t) :
    ∃ u b, t = u ++ [b] ∧ isIdentByte b = true := by
  induction h with
  | segment hs =>
    obtain ⟨b, s, rfl, -⟩ := hs.start
    rcases List.eq_nil_or_concat (b :: s) with hnil | ⟨u, c, hconcat⟩
    · cases hnil
    · rw [List.concat_eq_append] at hconcat
      exact ⟨u, c, hconcat, hs.bytes c (by rw [hconcat]; simp)⟩
  | @dotted s d e name t _ _ _ _ ih =>
    obtain ⟨u, b, rfl, hb⟩ := ih
    exact ⟨s ++ (d ++ dot :: (e ++ u)), b, by simp, hb⟩

variable (h : WritesName Blanks name t)
include h

/-- **A written name is read to its end**, where nothing goes on with it. -/
theorem WritesName.dottedName?_append (hword : Text.wordRun r = 0)
    (hnext : nextSegment? Text.identFold? r = none) :
    dottedName? Text.identFold? (t ++ r) = some t.length := by
  induction h with
  | segment hs =>
    rw [dottedName?, hs.identFold?_append hword, Option.map_some, List.drop_left,
      moreSegments_next, hnext]
    rfl
  | @dotted s d e name t hs hd he hname ih =>
    obtain ⟨b, z, ht, hb⟩ := hname.head
    have hrun : Text.blankRun (t ++ r) = 0 := by
      rw [ht]
      exact Utf8.run_eq_zero (isIdentByte_lt hb) (not_isBlankChar_of_isIdentByte hb) _
    have hmore := moreSegments_dot hd he hrun ih
    rw [List.append_assoc, List.append_assoc, List.cons_append, List.append_assoc, dottedName?,
      hs.identFold?_append (wordRun_blanks hd (wordRun_separator rfl _)), Option.map_some,
      List.drop_left, hmore]
    simp only [List.length_append, List.length_cons]
    congr 1
    omega

/-- Without its blanks it is the name. -/
theorem WritesName.withoutBlanks_eq : Text.withoutBlanks t = name := by
  have hsegment {s : Text} (hs : Segment s) : s.filter (fun b => !isBlankChar b.toNat) = s :=
    List.filter_eq_self.mpr fun b hb => by rw [(hs.ascii b hb).2.2]; rfl
  have hblank {d : Text} (hd : Blanks d) : d.filter (fun b => !isBlankChar b.toNat) = [] :=
    List.filter_eq_nil_iff.mpr fun b hb => by rw [(hd b hb).2]; decide
  suffices hfilter : (∀ b ∈ t, b < 0x80) ∧ t.filter (fun b => !isBlankChar b.toNat) = name by
    rw [Text.withoutBlanks_ascii hfilter.1, hfilter.2]
  induction h with
  | segment hs => exact ⟨fun b hb => (hs.ascii b hb).1, hsegment hs⟩
  | dotted hs hd he _ ih =>
    refine ⟨fun b hb => ?_, ?_⟩
    · simp only [List.mem_append, List.mem_cons] at hb
      rcases hb with hb | hb | rfl | hb | hb
      · exact (hs.ascii b hb).1
      · exact (hd b hb).1
      · decide
      · exact (he b hb).1
      · exact ih.1 b hb
    · rw [List.filter_append, List.filter_append, List.filter_cons_of_pos (by decide),
        List.filter_append, hsegment hs, hblank hd, hblank he, ih.2]
      rfl

end

/-- **A path in quotes is read behind `in`**, with blanks on both sides of it. -/
theorem inPath?_located {g h path : Text} (hg : Blanks g) (hgne : g ≠ []) (hh : Blanks h)
    (hhne : h ≠ []) (hpath : quote ∉ path) (r : Text) :
    UsesEntry.inPath? (g ++ ("in" ++ (h ++ quote :: (path ++ quote :: r)))) = some path := by
  have hin (x : Text) : Text.matchFold? "in" ("in" ++ x) = some 2 := rfl
  have hlead : Text.blankRun (g ++ ("in" ++ (h ++ quote :: (path ++ quote :: r)))) = g.length :=
    Text.blankRun_append (Text.chars_of_blanks hg)
      (Utf8.run_eq_zero (b := 0x69) (by decide) (by decide) _)
  have hgap : Text.blankRun (h ++ quote :: (path ++ quote :: r)) = h.length :=
    Text.blankRun_append (Text.chars_of_blanks hh) (Utf8.run_eq_zero (by decide) (by decide) _)
  have hdrop : (g ++ ("in" ++ (h ++ quote :: (path ++ quote :: r)))).drop (g.length + 2) =
      h ++ quote :: (path ++ quote :: r) := by
    rw [List.drop_length_add_append]
    rfl
  have hpos : ¬(g.length = 0 ∨ h.length = 0) := by
    rw [List.length_eq_zero_iff, List.length_eq_zero_iff]
    exact fun hor => hor.elim hgne hhne
  have hstart : UsesEntry.pathStart? (g ++ ("in" ++ (h ++ quote :: (path ++ quote :: r)))) =
      some (g.length + 2 + h.length) := by
    rw [UsesEntry.pathStart?]
    simp only [hlead, List.drop_left, hin, Option.bind_some, hdrop, hgap, if_neg hpos]
  rw [UsesEntry.inPath?_eq, hstart, Option.bind_some, ← List.drop_drop, hdrop, List.drop_left]
  show (Text.cut? quote (path ++ quote :: r)).map (·.1) = _
  rw [Text.cut?_append hpath, Option.map_some]

theorem inPath?_nil : UsesEntry.inPath? [] = none := by
  decide +kernel

theorem nextSegment?_nil : nextSegment? Text.identFold? [] = none := by
  decide +kernel

/-- Behind a name and blanks no segment follows where no dot does. -/
theorem nextSegment?_blanks {d x : Text} {b : UInt8} (hd : Blanks d) (hb : b < 0x80)
    (hblank : isBlankChar b.toNat = false) (hdot : b ≠ Ascii.dot) :
    nextSegment? Text.identFold? (d ++ b :: x) = none := by
  rw [nextSegment?,
    Text.blankRun_append (Text.chars_of_blanks hd) (Utf8.run_eq_zero hb hblank x), List.drop_left]
  exact if_neg fun h => hdot (Option.some.inj h)

/-- An entry as it is read, with slashes in its path. -/
def UsesEntry.withSlashes (e : UsesEntry) : UsesEntry :=
  { e with inPath := e.inPath.map Text.forwardSlashes }

/-- **An item in which only blanks are left is read back.** -/
theorem Writes.ofItem? {e : UsesEntry} {t : Text} (h : Writes Blanks e t) :
    UsesEntry.ofItem? t = some e.withSlashes := by
  rw [UsesEntry.ofItem?_eq]
  have hink {b : UInt8} (hb : isIdentByte b = true) :
      b < 0x80 ∧ isBlankChar b.toNat = false :=
    ⟨isIdentByte_lt hb, not_isBlankChar_of_isIdentByte hb⟩
  cases h with
  | @plain d name t e hd hname he =>
    obtain ⟨a, r, hhead, ha⟩ := hname.head
    obtain ⟨u, b, hlast, hb⟩ := hname.last
    have hread := hname.dottedName?_append (r := []) (by rw [Text.wordRun, Utf8.run])
      nextSegment?_nil
    rw [List.append_nil] at hread
    rw [Text.trim_between hd he hhead (hink ha).1 (hink ha).2 hlast (hink hb).1 (hink hb).2,
      UsesEntry.ofTrimmed?, hread, Option.map_some, List.take_length, List.drop_length,
      hname.withoutBlanks_eq, inPath?_nil]
    rfl
  | @located d name t g h path e hd hname hg hgne hh hhne hpath he =>
    obtain ⟨a, r, hhead, ha⟩ := hname.head
    have htext : t ++ (g ++ ("in" ++ (h ++ quote :: (path ++ quote :: e)))) =
        t ++ (g ++ ("in" ++ (h ++ quote :: (path ++ [quote])))) ++ e := by simp
    have hfirst : t ++ (g ++ ("in" ++ (h ++ quote :: (path ++ [quote])))) =
        a :: (r ++ (g ++ ("in" ++ (h ++ quote :: (path ++ [quote]))))) := by rw [hhead]; rfl
    have hlast : t ++ (g ++ ("in" ++ (h ++ quote :: (path ++ [quote])))) =
        t ++ (g ++ ("in" ++ (h ++ quote :: path))) ++ [quote] := by simp
    have hword : Text.wordRun (g ++ ("in" ++ (h ++ quote :: (path ++ [quote])))) = 0 := by
      obtain ⟨b, g, rfl⟩ := List.exists_cons_of_ne_nil hgne
      exact wordRun_separator (isSeparator_blank (hg b List.mem_cons_self)) _
    have hread := hname.dottedName?_append hword
      (nextSegment?_blanks (b := 0x69) hg (by decide) (by decide) (by decide))
    have hpath' : quote ∉ path := fun hmem => (hpath _ hmem).1 rfl
    rw [htext, Text.trim_between hd he hfirst (hink ha).1 (hink ha).2 hlast (by decide) (by decide),
      UsesEntry.ofTrimmed?, hread, Option.map_some, List.take_left, List.drop_left,
      inPath?_located hg hgne hh hhne hpath' [], hname.withoutBlanks_eq]
    rfl

/-! ### Words and marks in an item -/

theorem mem_sectionWords {word : Text} (h : word ∈ sectionWords) :
    word ≠ [] ∧ (∀ w ∈ word, isLower w = true) ∧ Text.toLower "in" ≠ word := by
  have hall : sectionWords.all (fun w => !w.isEmpty && w.all isLower &&
      Text.toLower "in" != w) = true := rfl
  have hword := List.all_eq_true.mp hall word h
  simp only [Bool.and_eq_true, bne_iff_ne, Bool.not_eq_true', List.isEmpty_eq_false_iff] at hword
  exact ⟨hword.1.1, List.all_eq_true.mp hword.1.2, hword.2⟩

theorem separators_blanks {d : Text} (hd : Blanks d) : ∀ b ∈ d, isSeparator b = true :=
  fun b hb => isSeparator_blank (hd b hb)

section
variable {word : Text} (hmem : word ∈ sectionWords)
include hmem

/-- Separators in front of a text, and behind it, bring no keyword in. -/
theorem findWordEnd?_front {d x : Text} (hd : ∀ b ∈ d, isSeparator b = true)
    (hx : findWordEnd? word x = none) : findWordEnd? word (d ++ x) = none := by
  obtain ⟨hne, hword, -⟩ := mem_sectionWords hmem
  exact findWordEnd?_append_eq_none hne hword (.inl fun c hc => hd c (List.mem_of_getLast? hc))
    (findWordEnd?_separators hne hword hd) hx

theorem findWordEnd?_seam {x d y : Text} (hx : findWordEnd? word x = none) (hd : d ≠ [])
    (hseps : ∀ b ∈ d, isSeparator b = true) (hy : findWordEnd? word y = none) :
    findWordEnd? word (x ++ (d ++ y)) = none := by
  obtain ⟨hne, hword, -⟩ := mem_sectionWords hmem
  obtain ⟨b, d, rfl⟩ := List.exists_cons_of_ne_nil hd
  refine findWordEnd?_append_eq_none hne hword (.inr fun c hc => ?_) hx
    (findWordEnd?_front hmem hseps hy)
  obtain rfl := Option.some.inj hc
  exact hseps b List.mem_cons_self

theorem Segment.findWordEnd?_eq_none {s : Text} (hs : Segment s) : findWordEnd? word s = none := by
  obtain ⟨-, hword, -⟩ := mem_sectionWords hmem
  refine findWordEnd?_identifier hs.bytes fun heq => ?_
  have hne := hs.notSection word hmem
  rw [Text.eqFold, heq, toLower_of_isLower hword, beq_self_eq_true] at hne
  cases hne

theorem WritesName.findWordEnd?_eq_none {name t : Text} (h : WritesName Blanks name t) :
    findWordEnd? word t = none := by
  induction h with
  | segment hs => exact hs.findWordEnd?_eq_none hmem
  | @dotted s d e name t hs hd he _ ih =>
    have htext : s ++ (d ++ Ascii.dot :: (e ++ t)) = s ++ ((d ++ Ascii.dot :: e) ++ t) := by simp
    rw [htext]
    exact findWordEnd?_seam hmem (hs.findWordEnd?_eq_none hmem) (by simp)
      (List.forall_mem_append.mpr ⟨separators_blanks hd,
        List.forall_mem_cons.mpr ⟨rfl, separators_blanks he⟩⟩) ih

/-- An item whose path is blank holds no word that begins a section. -/
theorem Writes.findWordEnd?_eq_none {e : UsesEntry} {t : Text} (h : Writes Blanks e t)
    (hpath : ∀ p ∈ e.inPath, Blanks p) : findWordEnd? word t = none := by
  obtain ⟨hne, hword, hin⟩ := mem_sectionWords hmem
  have hnil := findWordEnd?_nil hne hword
  cases h with
  | @plain d name t e hd hname he =>
    refine findWordEnd?_front hmem (separators_blanks hd) ?_
    rcases List.eq_nil_or_concat e with rfl | ⟨_, _, rfl⟩
    · rw [List.append_nil]
      exact hname.findWordEnd?_eq_none hmem
    · have := findWordEnd?_seam hmem (hname.findWordEnd?_eq_none hmem) (by simp)
        (separators_blanks he) hnil
      rwa [List.append_nil] at this
  | @located d name t g h path e hd hname hg hgne hh hhne _ he =>
    have hin' : findWordEnd? word "in" = none :=
      findWordEnd?_identifier (List.all_eq_true.mp rfl) hin
    have hseps : ∀ b ∈ h ++ quote :: (path ++ quote :: e), isSeparator b = true := by
      simp only [List.forall_mem_append, List.forall_mem_cons]
      exact ⟨separators_blanks hh, rfl, separators_blanks (hpath path rfl), rfl,
        separators_blanks he⟩
    have hbehind := findWordEnd?_seam hmem hin' (by simp) hseps hnil
    rw [List.append_nil] at hbehind
    exact findWordEnd?_front hmem (separators_blanks hd) (findWordEnd?_seam hmem
      (hname.findWordEnd?_eq_none hmem) hgne (separators_blanks hg) hbehind)

end

/-- None of the marks that end an item or a clause stands in a text. -/
def Unmarked (x : Text) : Prop := ∀ b ∈ x, b ≠ quote ∧ b ≠ comma ∧ b ≠ semicolon

theorem Unmarked.append {x y : Text} (hx : Unmarked x) (hy : Unmarked y) : Unmarked (x ++ y) :=
  List.forall_mem_append.mpr ⟨hx, hy⟩

theorem unmarked_of_class {p : UInt8 → Bool} {x : Text} (hx : ∀ b ∈ x, p b = true)
    (hp : [quote, comma, semicolon].any p = false) : Unmarked x := fun b hb => by
  rw [List.any_eq_false] at hp
  have hne {c : UInt8} (hc : c ∈ [quote, comma, semicolon]) : b ≠ c := by
    rintro rfl
    exact hp b hc (hx b hb)
  exact ⟨hne (by simp), hne (by simp), hne (by simp)⟩

theorem unmarked_blanks {d : Text} (hd : Blanks d) : Unmarked d :=
  unmarked_of_class (p := fun b => isBlankChar b.toNat) (fun b hb => (hd b hb).2) (by decide)

theorem unmarked_identifier {s : Text} (hs : ∀ b ∈ s, isIdentByte b = true) : Unmarked s :=
  unmarked_of_class hs (by decide)

theorem WritesName.unmarked {name t : Text} (h : WritesName Blanks name t) : Unmarked t := by
  induction h with
  | segment hs => exact unmarked_identifier hs.bytes
  | dotted hs hd he _ ih =>
    refine (unmarked_identifier hs.bytes).append ((unmarked_blanks hd).append ?_)
    rw [← List.singleton_append]
    exact (unmarked_of_class (p := (· == Ascii.dot)) (by simp) (by decide)).append
      ((unmarked_blanks he).append ih)

section
variable {e : UsesEntry} {t : Text} (h : Writes Blanks e t)
include h

/-- An item is split off as a whole. -/
theorem Writes.split (r : Text) :
    splitOutsideLiterals comma (t ++ r) = onFirst t (splitOutsideLiterals comma r) := by
  have hplain {x : Text} (hx : Unmarked x) (r : Text) :
      splitOutsideLiterals comma (x ++ r) = onFirst x (splitOutsideLiterals comma r) :=
    splitOutsideLiterals_plain (fun b hb => ⟨(hx b hb).1, (hx b hb).2.1⟩) r
  cases h with
  | plain hd hname he =>
    exact hplain ((unmarked_blanks hd).append (hname.unmarked.append (unmarked_blanks he))) r
  | @located d name t g h path e hd hname hg _ hh _ hpath he =>
    have hfront : Unmarked (d ++ (t ++ (g ++ ("in" ++ h)))) :=
      (unmarked_blanks hd).append (hname.unmarked.append ((unmarked_blanks hg).append
        ((unmarked_identifier (List.all_eq_true.mp rfl)).append (unmarked_blanks hh))))
    have hpair (r : Text) : splitOutsideLiterals comma (quote :: (path ++ [quote]) ++ r) =
        onFirst (quote :: (path ++ [quote])) (splitOutsideLiterals comma r) := by
      rw [← splitOutsideLiterals_pair hpath r]
      simp
    have hitem : d ++ (t ++ (g ++ ("in" ++ (h ++ quote :: (path ++ quote :: e))))) =
        d ++ (t ++ (g ++ ("in" ++ h))) ++ (quote :: (path ++ [quote]) ++ e) := by simp
    rw [hitem, List.append_assoc, List.append_assoc _ e, hplain hfront, hpair,
      hplain (unmarked_blanks he), onFirst_onFirst, onFirst_onFirst, List.append_assoc]

/-- In an item whose path is blank no semicolon stands. -/
theorem Writes.semicolon_not_mem (hpath : ∀ p ∈ e.inPath, Blanks p) : semicolon ∉ t := by
  have hnot {x : Text} (hx : Unmarked x) : semicolon ∉ x := fun hmem => (hx _ hmem).2.2 rfl
  cases h with
  | plain hd hname he =>
    exact hnot ((unmarked_blanks hd).append (hname.unmarked.append (unmarked_blanks he)))
  | @located d name t g h path e hd hname hg _ hh _ _ he =>
    simp only [List.mem_append, List.mem_cons, not_or]
    exact ⟨hnot (unmarked_blanks hd), hnot hname.unmarked, hnot (unmarked_blanks hg), by decide,
      hnot (unmarked_blanks hh), by decide, hnot (unmarked_blanks (hpath path rfl)), by decide,
      hnot (unmarked_blanks he)⟩

end

/-! ### Programs -/

/-- A program with the items of its uses clause. -/
def programText (lineBreak : Text) (items : List Text) : Text :=
  "program P;" ++ (lineBreak ++ ("uses " ++ (Text.join [comma] items ++ "; begin end.")))

section
variable {es : List UsesEntry} {items : List Text}

theorem join_cons {t : Text} {ts : List Text} (hts : ts ≠ []) :
    Text.join [comma] (t :: ts) = t ++ comma :: Text.join [comma] ts := by
  obtain ⟨u, us, rfl⟩ := List.exists_cons_of_ne_nil hts
  simp [Text.join, List.intercalate_cons_cons]

theorem codes_comma : ∀ b ∈ [comma], ∀ r, regionAt? (b :: r) = none := fun b hb r => by
  rw [List.mem_singleton.mp hb]
  exact regionAt?_eq_none r (by decide) (by decide) (by decide) (by decide)

/-- The overlay of a list of items is the list of their overlays. -/
theorem mask_join (h : List.Forall₂ (Writes Filler) es items) (mode : Mask) {r : Text}
    (hr : r.head? ≠ some quote) :
    mask mode (Text.join [comma] items ++ r) =
      Text.join [comma] (items.map (mask mode)) ++ mask mode r := by
  induction h with
  | nil => simp [Text.join]
  | @cons e t es items ht hrest ih =>
    rcases eq_or_ne items [] with rfl | hne
    · simpa [Text.join] using ht.mask_append mode hr
    · have hcomma (x : Text) : mask mode (comma :: x) = comma :: mask mode x := by
        rw [← List.singleton_append, (standalone_codes codes_comma).mask_append,
          mask_codes codes_comma]
        rfl
      have hhead (x : Text) : (comma :: x).head? ≠ some quote := fun h =>
        absurd (Option.some.inj h) (by decide)
      rw [List.map_cons, join_cons hne, join_cons (by simpa using hne), List.append_assoc,
        List.cons_append, ht.mask_append mode (hhead _), hcomma, ih]
      simp

/-- A list of items is split into them. -/
theorem split_join (h : List.Forall₂ (Writes Blanks) es items) (hne : items ≠ []) :
    splitOutsideLiterals comma (Text.join [comma] items) = items := by
  induction h with
  | nil => exact absurd rfl hne
  | @cons e t es items ht hrest ih =>
    rcases eq_or_ne items [] with rfl | hne
    · have := ht.split []
      rw [List.append_nil, splitOutsideLiterals, onFirst_cons, List.append_nil] at this
      simpa [Text.join] using this
    · rw [join_cons hne, ht.split, splitOutsideLiterals, if_neg (by decide), if_pos rfl, ih hne,
        onFirst_cons, List.append_nil]

theorem filterMap_ofItem? (h : List.Forall₂ (Writes Blanks) es items) :
    items.filterMap UsesEntry.ofItem? = es.map UsesEntry.withSlashes := by
  induction h with
  | nil => rfl
  | cons ht _ ih => rw [List.filterMap_cons, ht.ofItem?, ih, List.map_cons]

/-- A space in front of an item is one of its blanks. -/
theorem Writes.space_cons {e : UsesEntry} {t : Text} (h : Writes Blanks e t) :
    Writes Blanks e (space :: t) := by
  have hspace {d : Text} (hd : Blanks d) : Blanks (space :: d) :=
    List.forall_mem_cons.mpr ⟨by decide, hd⟩
  cases h with
  | plain hd hname he => exact .plain (hspace hd) hname he
  | located hd hname hg hgne hh hhne hpath he =>
    exact .located (hspace hd) hname hg hgne hh hhne hpath he

theorem masked_comments (h : List.Forall₂ (Writes Filler) es items) :
    List.Forall₂ (Writes Blanks) es (items.map (mask .comments)) := by
  induction h with
  | nil => exact .nil
  | @cons e t es items ht _ ih =>
    refine .cons ?_ ih
    have hsame : e.masked .comments = e := by rcases e with ⟨name, - | path⟩ <;> rfl
    simpa only [hsame] using ht.masked .comments

/-- **The clause is read back**, where only blanks are left between its tokens. -/
theorem parseClause_join (h : List.Forall₂ (Writes Blanks) es items) :
    UsesEntry.parseClause (space :: Text.join [comma] items) = es.map UsesEntry.withSlashes := by
  cases h with
  | nil => decide +kernel
  | @cons e t es items ht hrest =>
    have hspaced : List.Forall₂ (Writes Blanks) (e :: es) ((space :: t) :: items) :=
      .cons ht.space_cons hrest
    have hjoin : space :: Text.join [comma] (t :: items) =
        Text.join [comma] ((space :: t) :: items) := by
      rcases eq_or_ne items [] with rfl | hne
      · simp [Text.join]
      · rw [join_cons hne, join_cons hne]
        rfl
    rw [hjoin, UsesEntry.parseClause, split_join hspaced (by simp), filterMap_ofItem? hspaced]

/-- In the overlay of the items stands no word that begins a section, and no semicolon. -/
theorem quiet_join (h : List.Forall₂ (Writes Filler) es items) :
    (∀ word ∈ sectionWords, findWordEnd? word (Text.join [comma] (items.map overlay)) = none) ∧
      semicolon ∉ Text.join [comma] (items.map overlay) := by
  induction h with
  | nil =>
    refine ⟨fun word hmem =>
      findWordEnd?_nil (mem_sectionWords hmem).1 (mem_sectionWords hmem).2.1, ?_⟩
    simp [Text.join]
  | @cons e t es items ht _ ih =>
    have hitem := ht.masked .commentsAndLiterals
    have hpath : ∀ p ∈ (e.masked .commentsAndLiterals).inPath, Blanks p := by
      intro p hp
      obtain ⟨path, -, rfl⟩ := Option.map_eq_some_iff.mp hp
      exact blanks_blanked path
    rcases eq_or_ne items [] with rfl | hne
    · refine ⟨fun word hmem => ?_, ?_⟩
      · simpa [Text.join] using hitem.findWordEnd?_eq_none hmem hpath
      · simpa [Text.join] using hitem.semicolon_not_mem hpath
    · rw [List.map_cons, join_cons (by simpa using hne)]
      refine ⟨fun word hmem => ?_, ?_⟩
      · exact findWordEnd?_seam hmem (d := [comma]) (hitem.findWordEnd?_eq_none hmem hpath) (by simp)
          (List.forall_mem_singleton.mpr rfl) (ih.1 word hmem)
      · simp only [List.mem_append, List.mem_cons, not_or]
        exact ⟨hitem.semicolon_not_mem hpath, by decide, ih.2⟩

end

theorem find?_semicolon {x : Text} (hx : semicolon ∉ x) (y : Text) :
    Text.find? semicolon (x ++ semicolon :: y) = some x.length := by
  have hnone : Text.find? semicolon x = none := by
    rw [Text.find?, List.findIdx?_eq_none_iff]
    intro c hc
    rw [beq_eq_false_iff_ne]
    rintro rfl
    exact hx hc
  rw [UsesEntry.find?_append, hnone, Option.none_or]
  rfl

/-- The part of a program in front of its items. -/
def programHead (lineBreak : Text) : Text := "program P;" ++ (lineBreak ++ "uses")

/-- The part of a program behind its items. -/
def programTail : Text := "; begin end."

theorem programText_eq (lineBreak : Text) (items : List Text) : programText lineBreak items =
    programHead lineBreak ++ space :: (Text.join [comma] items ++ programTail) := by
  simp only [programText, programHead, List.append_assoc]
  rfl

/-- Whether a byte begins no region. -/
def isCodeByte (b : UInt8) : Bool := !([slash, lbrace, lparen, quote].contains b)

section
variable {es : List UsesEntry} {items : List Text} {lineBreak : Text}
  (hbreak : lineBreak ∈ [[newline], [cr, newline]])
include hbreak

theorem programHead_spec :
    (∀ b ∈ programHead lineBreak, isCodeByte b = true) ∧
      findWordEnd? "uses" (programHead lineBreak) = some (programHead lineBreak).length ∧
      ∀ word ∈ sectionWords, findWordEnd? word (programHead lineBreak) = none := by
  simp only [List.mem_cons, List.not_mem_nil, or_false] at hbreak
  rcases hbreak with rfl | rfl <;>
    exact ⟨List.all_eq_true.mp rfl, by decide +kernel, by decide +kernel⟩

variable (h : List.Forall₂ (Writes Filler) es items)
include h

/-- The overlays of a program, with the items as they show them. -/
theorem mask_programText (mode : Mask) : mask mode (programText lineBreak items) =
    programHead lineBreak ++
      space :: (Text.join [comma] (items.map (mask mode)) ++ programTail) := by
  have hhead : ∀ b ∈ programHead lineBreak ++ [space], ∀ r, regionAt? (b :: r) = none := by
    intro b hb
    have hcode : isCodeByte b = true := by
      rcases List.mem_append.mp hb with hb | hb
      · exact (programHead_spec hbreak).1 b hb
      · rw [List.mem_singleton.mp hb]
        rfl
    exact regionAt?_of_class hcode (by decide)
  have htail : ∀ b ∈ programTail, ∀ r, regionAt? (b :: r) = none := fun b hb =>
    regionAt?_of_class (p := isCodeByte) (List.all_eq_true.mp rfl b hb) (by decide)
  have hsplit (x : Text) : programHead lineBreak ++ space :: x =
      programHead lineBreak ++ [space] ++ x := by simp
  rw [programText_eq, hsplit, (standalone_codes hhead).mask_append, mask_codes hhead,
    mask_join h mode (by decide), mask_codes htail]
  exact (hsplit _).symm

/-- No section begins in the overlay of a program. -/
theorem sections_programText : sections (overlay (programText lineBreak items)) = (none, none) := by
  have hnone {word : Text} (hmem : word ∈ sectionWords) :
      findLine? word (overlay (programText lineBreak items)) = none := by
    obtain ⟨hne, hword, -⟩ := mem_sectionWords hmem
    refine findLine?_eq_none ?_
    rw [overlay, mask_programText hbreak h]
    refine findWordEnd?_seam hmem (d := [space]) ((programHead_spec hbreak).2.2 word hmem) (by simp)
      (List.forall_mem_singleton.mpr rfl) (findWordEnd?_append_eq_none hne hword (.inr fun c hc => ?_)
        ((quiet_join h).1 word hmem) ?_)
    · obtain rfl : semicolon = c := Option.some.inj hc
      rfl
    · have hall : ∀ word ∈ sectionWords, findWordEnd? word programTail = none := by decide +kernel
      exact hall word hmem
  rw [sections, hnone (List.mem_cons_of_mem _ List.mem_cons_self), hnone List.mem_cons_self]
  rfl

/-- **A program has the entries that are written in its uses clause**, whatever white space and
comments stand between the tokens, and so has the interface in its outline. -/
theorem uses_written :
    UsesEntry.ofProgram (programText lineBreak items) = es.map UsesEntry.withSlashes ∧
      ∀ file, (ofText (programText lineBreak items) file).interfaceUses =
        es.map UsesEntry.withSlashes := by
  have huses : UsesEntry.ofProgram (programText lineBreak items) = es.map UsesEntry.withSlashes := by
    have hword : findWordEnd? "uses" (overlay (programText lineBreak items)) =
        some (programHead lineBreak).length := by
      rw [overlay, mask_programText hbreak h, findWordEnd?_append (by decide)
        UsesEntry.isLower_of_mem_uses (.inr fun c hc => ?_), (programHead_spec hbreak).2.1,
        Option.some_or]
      obtain rfl : space = c := Option.some.inj hc
      rfl
    have hlen (mode : Mask) : (Text.join [comma] (items.map (mask mode))).length =
        (Text.join [comma] items).length := by
      have := congrArg List.length (mask_join h mode (r := []) (by simp))
      rw [List.append_nil, mask_nil, List.append_nil, length_mask] at this
      exact this.symm
    have hfind : Text.find? semicolon ((overlay (programText lineBreak items)).drop
        (programHead lineBreak).length) = some ((Text.join [comma] items).length + 1) := by
      have hspaced : semicolon ∉ space :: Text.join [comma] (items.map overlay) := by
        rw [List.mem_cons, not_or]
        exact ⟨by decide, (quiet_join h).2⟩
      rw [overlay, mask_programText hbreak h, List.drop_left, ← List.cons_append]
      show Text.find? semicolon (space :: Text.join [comma] (items.map overlay) ++
        semicolon :: " begin end.") = _
      rw [find?_semicolon hspaced, List.length_cons, hlen]
    rw [UsesEntry.ofProgram_eq, UsesEntry.ofOverlays, hword]
    dsimp only
    rw [hfind]
    dsimp only
    rw [clean, mask_programText hbreak h, List.drop_left, List.take_succ_cons,
      ← hlen .comments, List.take_left, parseClause_join (masked_comments h)]
  exact ⟨huses, fun file => (UsesEntry.interfaceUses_eq_ofProgram
    (sections_programText hbreak h) file).trans huses⟩

end

/-- Two items with blanks and comments between their tokens. -/
def commentedItems : List Text :=
  [" System\x7b;\x7d.\n SysUtils\t",
    "\x7bmain, form\x7d uMain in\x7b,\x7d'..\\src;v2\\u,\x7b(*.pas'"]

/-- The entries that they write. -/
def commentedEntries : List UsesEntry :=
  [⟨"System.SysUtils", none⟩, ⟨"uMain", some "..\\src;v2\\u,\x7b(*.pas"⟩]

theorem writes_commentedItems : List.Forall₂ (Writes Filler) commentedEntries commentedItems := by
  have hsegment {s : Text} (h : (s.head?.any isIdentStart && s.all isIdentByte &&
      sectionWords.all fun word => !Text.eqFold s word) = true) : Segment s := by
    simp only [Bool.and_eq_true, List.all_eq_true, Bool.not_eq_true'] at h
    obtain ⟨⟨hstart, hbytes⟩, hword⟩ := h
    cases s with
    | nil => cases hstart
    | cons b r => exact ⟨⟨b, r, rfl, hstart⟩, hbytes, hword⟩
  have hblank {b : UInt8} (h : (b < 0x80 ∧ isBlankChar b.toNat = true)) : Filler [b] :=
    .blank h.1 h.2 .nil
  have hunit : WritesName Filler "SysUtils" "SysUtils" := .segment (hsegment (by decide))
  have hname : WritesName Filler "System.SysUtils" "System\x7b;\x7d.\n SysUtils" :=
    WritesName.dotted (s := "System") (d := "\x7b;\x7d") (e := "\n ") (hsegment (by decide))
      (.comment (c := ";") (by decide) .nil)
      (.blank (by decide) (by decide) (hblank (by decide))) hunit
  have hpath : ∀ b ∈ ("..\\src;v2\\u,\x7b(*.pas" : Text), b ≠ quote ∧ b ≠ newline := by
    have hall : ("..\\src;v2\\u,\x7b(*.pas" : Text).all (fun b => b != quote && b != newline) =
        true := rfl
    simpa using hall
  refine .cons (.plain (d := " ") (e := "\t") (hblank (by decide)) hname (hblank (by decide)))
    (.cons (.located (d := "\x7bmain, form\x7d ") (g := " ") (h := "\x7b,\x7d") (e := [])
      (.comment (c := "main, form") (by decide) (hblank (by decide)))
      (.segment (hsegment (by decide))) (hblank (by decide)) (by decide)
      (.comment (c := ",") (by decide) .nil) (by decide) hpath .nil) .nil)

theorem uses_commentedItems :
    [newline] ∈ [[newline], [cr, newline]] ∧
      List.Forall₂ (Writes Filler) commentedEntries commentedItems ∧
      UsesEntry.ofProgram (programText [newline] commentedItems) =
        [⟨"System.SysUtils", none⟩, ⟨"uMain", some "../src;v2/u,\x7b(*.pas"⟩] := by
  have hbreak : [newline] ∈ [[newline], [cr, newline]] := by decide
  exact ⟨hbreak, writes_commentedItems, (uses_written hbreak writes_commentedItems).1⟩

end PascalSurvey.Outline
