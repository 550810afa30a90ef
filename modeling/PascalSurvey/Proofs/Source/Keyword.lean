/-
PascalSurvey/Proofs/Source/Keyword.lean

Where a keyword is found.  A keyword does not reach over a separator, and looking back from behind
one nothing in front of it counts.  So the first keyword of two texts put together is that of the
first text, or else that of the second, as soon as a separator stands on one side of the seam
(`findWordEnd?_append`).
-/
import PascalSurvey.Source.Keyword
import PascalSurvey.Proofs.Text.Spelling

namespace PascalSurvey.Source

open Ascii

/-- A separator stands on one side of the seam between two texts, or one of them is empty. -/
def Severed (x y : Text) : Prop :=
  (∀ c, x.getLast? = some c → isSeparator c = true) ∨ ∀ c, y.head? = some c → isSeparator c = true

variable {word : Text} (hne : word ≠ []) (hword : ∀ w ∈ word, isLower w = true)

/-- The end of the keyword at a place, as the search for keywords sees it. -/
def wordEndAt? (word : Text) (c : Cursor) : Option Nat := (wordAt? word c).map (c.offset + ·)

theorem search?_eq {α : Type} (p : Cursor → Option α) (o : Nat) (before after : Text) :
    Cursor.search? p ⟨o, before, after⟩ =
      (p ⟨o, before, after⟩).or (match after with
        | [] => none
        | a :: r => Cursor.search? p ⟨o + 1, a :: before, r⟩) := by
  rw [Cursor.search?]
  cases p ⟨o, before, after⟩ <;> cases after <;> rfl

section
variable {c : UInt8} (hc : isSeparator c = true)
include hword hc

include hne in
/-- The keyword is found in front of the separator, or the search goes on behind it. -/
theorem search?_front (x y : Text) (o : Nat) (before : Text) :
    Cursor.search? (wordEndAt? word) ⟨o, before, x ++ c :: y⟩ =
      (Cursor.search? (wordEndAt? word) ⟨o, before, x⟩).or
        (Cursor.search? (wordEndAt? word) ⟨o + x.length + 1, c :: (x.reverse ++ before), y⟩) := by
  have hat (x : Text) (o : Nat) (before : Text) :
      wordEndAt? word ⟨o, before, x ++ c :: y⟩ = wordEndAt? word ⟨o, before, x⟩ := by
    simp only [wordEndAt?, wordAt?, Text.matchWord?_separator hc hword]
  induction x generalizing o before with
  | nil =>
    -- no keyword begins with a separator
    have hnone : wordEndAt? word ⟨o, before, []⟩ = none := by
      obtain ⟨w, ws, rfl⟩ := List.exists_cons_of_ne_nil hne
      simp [wordEndAt?, wordAt?, Text.matchWord?, Text.matchFold?]
    have hnil := hat [] o before
    rw [List.nil_append] at hnil
    rw [List.nil_append, search?_eq, hnil, hnone, search?_eq _ o before [], hnone]
    rfl
  | cons a x ih =>
    rw [search?_eq, hat, search?_eq _ o before (a :: x), Option.or_assoc]
    congr 1
    rw [List.cons_append]
    dsimp only
    rw [ih, List.reverse_cons, List.append_assoc, List.length_cons, List.singleton_append,
      Nat.add_right_comm o 1, Nat.add_assoc o x.length 1]

omit hword in
/-- Behind a separator the search is that of the text that stands there. -/
theorem search?_behind (y : Text) (o k : Nat) (before u : Text) :
    Cursor.search? (wordEndAt? word) ⟨o + k, before ++ c :: u, y⟩ =
      (Cursor.search? (wordEndAt? word) ⟨k, before, y⟩).map (o + ·) := by
  have hat (y : Text) (k : Nat) (before : Text) :
      wordEndAt? word ⟨o + k, before ++ c :: u, y⟩ =
        (wordEndAt? word ⟨k, before, y⟩).map (o + ·) := by
    simp only [wordEndAt?, wordAt?, Text.endsWord_separator hc, Option.map_map]
    congr 1
    funext n
    exact Nat.add_assoc o k n
  induction y generalizing k before with
  | nil =>
    rw [search?_eq, hat, search?_eq _ k]
    simp
  | cons a y ih =>
    have hrest := ih (k + 1) (a :: before)
    rw [search?_eq, hat, search?_eq _ k, Option.map_or]
    congr 1

include hne in
/-- A keyword is found in front of a separator or behind it. -/
theorem findWordEnd?_separator (x y : Text) :
    findWordEnd? word (x ++ c :: y) =
      (findWordEnd? word x).or ((findWordEnd? word y).map (x.length + 1 + ·)) := by
  have hbehind := @search?_behind word c hc y (x.length + 1) 0 [] x.reverse
  rw [List.nil_append, Nat.add_zero] at hbehind
  show Cursor.search? (wordEndAt? word) ⟨0, [], x ++ c :: y⟩ = _
  rw [search?_front hne hword hc, List.append_nil, Nat.zero_add, hbehind]
  rfl

end

include hne hword

theorem findWordEnd?_nil : findWordEnd? word [] = none := by
  obtain ⟨w, ws, rfl⟩ := List.exists_cons_of_ne_nil hne
  rw [findWordEnd?, Cursor.search?]
  simp [Cursor.start, wordAt?, Text.matchWord?, Text.matchFold?, Cursor.atEnd]

/-- **A keyword is found in one of two texts that are severed.** -/
theorem findWordEnd?_append {x y : Text} (h : Severed x y) :
    findWordEnd? word (x ++ y) =
      (findWordEnd? word x).or ((findWordEnd? word y).map (x.length + ·)) := by
  have hnil := findWordEnd?_nil hne hword
  rcases h with h | h
  · rcases List.eq_nil_or_concat x with rfl | ⟨x, c, rfl⟩
    · simp [hnil]
    · have hc := h c (by simp)
      have hsep (y : Text) := findWordEnd?_separator hne hword hc x y
      rw [List.concat_eq_append, List.append_assoc, List.singleton_append, hsep, hsep, hnil]
      simp
  · cases y with
    | nil => simp [hnil]
    | cons c y =>
      have hc := h c rfl
      have hsep (x : Text) := findWordEnd?_separator hne hword hc x y
      have hcons := hsep []
      rw [List.nil_append, hnil] at hcons
      rw [hsep, hcons]
      simp [Function.comp_def, Nat.add_assoc]

theorem findWordEnd?_append_eq_none {x y : Text} (h : Severed x y) (hx : findWordEnd? word x = none)
    (hy : findWordEnd? word y = none) : findWordEnd? word (x ++ y) = none := by
  rw [findWordEnd?_append hne hword h, hx, hy]
  rfl

/-- Separators hold no keyword. -/
theorem findWordEnd?_separators {d : Text} (hd : ∀ b ∈ d, isSeparator b = true) :
    findWordEnd? word d = none := by
  induction d with
  | nil => exact findWordEnd?_nil hne hword
  | cons b d ih =>
    have hsep := findWordEnd?_separator hne hword (hd b List.mem_cons_self) [] d
    rw [List.nil_append] at hsep
    rw [hsep, findWordEnd?_nil hne hword, ih fun c hc => hd c (List.mem_cons_of_mem _ hc)]
    rfl

omit hne hword in
/-- A keyword that is found is spelled there, and no word character stands next to it. -/
theorem exists_of_findWordEnd? {t : Text} {n : Nat} (h : findWordEnd? word t = some n) :
    ∃ j k, j ≤ t.length ∧ Text.endsWord (t.take j).reverse = false ∧
      Text.matchFold? word (t.drop j) = some k ∧ Text.startsWord (t.drop (j + k)) = false ∧
      n = j + k := by
  obtain ⟨j, hj, hp⟩ := Cursor.search?_eq_some (i := 0) (Nat.zero_le _) h
  obtain ⟨m, hm, rfl⟩ := Option.map_eq_some_iff.mp hp
  rw [wordAt?, Cursor.before_ofOffset, Cursor.after_ofOffset] at hm
  split at hm
  · cases hm
  next hbefore =>
  obtain ⟨k, hfold, hk⟩ := Option.bind_eq_some_iff.mp hm
  split at hk
  · cases hk
  next hafter =>
  obtain rfl := Option.some.inj hk
  rw [List.drop_drop] at hafter
  exact ⟨j, k, hj, by simpa using hbefore, hfold, by simpa using hafter,
    by rw [Cursor.offset_ofOffset hj]⟩

omit hne hword in
theorem findWordEnd?_le {t : Text} {n : Nat} (h : findWordEnd? word t = some n) :
    n ≤ t.length := by
  obtain ⟨j, k, hj, -, hk, -, rfl⟩ := exists_of_findWordEnd? h
  have hle := Text.matchFold?_le hk
  rw [List.length_drop] at hle
  omega

omit hne hword in
/-- In an identifier no other keyword is found. -/
theorem findWordEnd?_identifier {s : Text} (hs : ∀ b ∈ s, isIdentByte b = true)
    (h : Text.toLower s ≠ word) : findWordEnd? word s = none := by
  rw [Option.eq_none_iff_forall_ne_some]
  intro n hn
  obtain ⟨j, k, hj, hbefore, hfold, hafter, -⟩ := exists_of_findWordEnd? hn
  have hletter {b : UInt8} (hb : b ∈ s) : b < 0x80 := isIdentByte_lt (hs b hb)
  -- the keyword begins where the identifier does, and ends where it ends
  obtain rfl : j = 0 := by
    rcases hrev : (s.take j).reverse with - | ⟨b, r⟩
    · simpa [hj] using congrArg List.length hrev
    · have hb : b ∈ s := List.mem_of_mem_take (List.mem_reverse.mp (hrev ▸ List.mem_cons_self))
      rw [hrev, Text.endsWord_ascii (hletter hb), hs b hb] at hbefore
      cases hbefore
  have hend : s.drop k = [] := by
    rw [Nat.zero_add] at hafter
    rcases hdrop : s.drop k with - | ⟨b, r⟩
    · rfl
    · have hb : b ∈ s := List.mem_of_mem_drop (hdrop ▸ List.mem_cons_self)
      rw [hdrop, Text.startsWord_ascii (hletter hb), hs b hb] at hafter
      cases hafter
  obtain ⟨a, r, hsplit, ha, rfl⟩ := Text.matchFold?_eq_some_iff.mp hfold
  obtain rfl : s = a ++ r := hsplit
  rw [List.drop_left] at hend
  subst hend
  rw [List.append_nil] at h hletter
  exact h (ha.toLower fun b hb => hletter hb)

omit hne hword in
theorem indent_le (t : Text) : indent t ≤ t.length := (List.takeWhile_sublist _).length_le

omit hne hword in
/-- In front of the first word of a line no word character stands. -/
theorem endsWord_indent {t : Text} {j : Nat} (h : atLineStart (Cursor.ofOffset t j) = true) :
    Text.endsWord (t.take (j + indent (t.drop j))).reverse = false := by
  rw [List.take_add, List.reverse_append, indent,
    ← List.prefix_iff_eq_take.mp (List.takeWhile_prefix _)]
  have hblank : ∀ b ∈ (t.drop j).takeWhile fun b => b == space || b == tab,
      (b == space || b == tab) = true := List.all_eq_true.mp List.all_takeWhile
  rcases List.eq_nil_or_concat ((t.drop j).takeWhile fun b => b == space || b == tab) with
    hnil | ⟨w, b, hconcat⟩
  · rw [hnil, List.reverse_nil, List.nil_append]
    rw [atLineStart, Cursor.before_ofOffset] at h
    split at h
    · next hnil =>
      rw [hnil]
      rfl
    · next b r hcons =>
      obtain rfl := beq_iff_eq.mp h
      rw [hcons, Text.endsWord_ascii (by decide)]
      decide
  · rw [hconcat] at hblank ⊢
    have hb := hblank b (by simp)
    rw [List.concat_eq_append, List.reverse_append, List.reverse_singleton, List.singleton_append,
      List.cons_append]
    simp only [Bool.or_eq_true, beq_iff_eq] at hb
    rcases hb with rfl | rfl <;> rw [Text.endsWord_ascii (by decide)] <;> decide

omit hne hword in
/-- Where no keyword is found, no line begins with it. -/
theorem findLine?_eq_none {t : Text} (h : findWordEnd? word t = none) : findLine? word t = none := by
  rw [Option.eq_none_iff_forall_ne_some]
  rintro ⟨s, e⟩ hline
  obtain ⟨j, hj, hp⟩ := Cursor.search?_eq_some (i := 0) (Nat.zero_le _) hline
  rw [Cursor.after_ofOffset] at hp
  dsimp only at hp
  split at hp
  · next hstart =>
    obtain ⟨n, hn, -⟩ := Option.map_eq_some_iff.mp hp
    -- the word stands behind the indent, and no word ends there
    have hle : indent (t.drop j) ≤ t.length - j := by
      rw [← List.length_drop]
      exact indent_le _
    have hnone := Cursor.search?_eq_none (i := 0) h (Nat.zero_le _)
      (by omega : j + indent (t.drop j) ≤ t.length)
    rw [wordAt?, Cursor.before_ofOffset, endsWord_indent hstart, Cursor.after_ofOffset,
      ← List.drop_drop, hn] at hnone
    cases hnone
  · cases hp

end PascalSurvey.Source
