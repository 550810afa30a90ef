/-
PascalSurvey/Proofs/Text/Local.lean

Readers that stay before a semicolon.  Words, names and the blanks between them end before the
next semicolon, and finding them does not look beyond it: such a reader is `Local`.  Composing
local readers gives a local reader (`Local.andThen`), because a reader that stays before the
semicolon leaves it in what is left.
-/
import PascalSurvey.Text.WordChar
import PascalSurvey.Proofs.Text.Boundary
import PascalSurvey.Proofs.Text.Bytes

namespace PascalSurvey

open Ascii

/-- A reader that takes only bytes before the next semicolon and looks at nothing behind it. -/
structure Local (f : Text → Option Nat) : Prop where
  same : ∀ x y, f (x ++ semicolon :: y) = f (x ++ [semicolon])
  le : ∀ {x n}, f (x ++ [semicolon]) = some n → n ≤ x.length

theorem drop_before {x : Text} {n : Nat} (h : n ≤ x.length) (y : Text) :
    (x ++ semicolon :: y).drop n = x.drop n ++ semicolon :: y :=
  List.drop_append_of_le_length h

theorem Local.congr {f g : Text → Option Nat} (hf : Local f) (h : ∀ t, g t = f t) : Local g := by
  obtain rfl : g = f := funext h
  exact hf

/-- One local reader behind another is a local reader. -/
theorem Local.andThen {f g : Text → Option Nat} (hf : Local f) (hg : Local g) :
    Local fun t => (f t).bind fun n => (g (t.drop n)).map (n + ·) := by
  constructor
  · intro x y
    rw [hf.same x y]
    rcases hk : f (x ++ [semicolon]) with - | k
    · rfl
    · have hle := hf.le hk
      simp only [Option.bind_some, drop_before hle, hg.same (x.drop k) y]
  · intro x n hn
    obtain ⟨k, hk, hn⟩ := Option.bind_eq_some_iff.mp hn
    have hle := hf.le hk
    rw [drop_before hle] at hn
    obtain ⟨j, hj, rfl⟩ := Option.map_eq_some_iff.mp hn
    have := hg.le hj
    rw [List.length_drop] at this
    omega

/-- A local reader that may read nothing. -/
theorem Local.getD {f : Text → Option Nat} (hf : Local f) : Local fun t => some ((f t).getD 0) := by
  refine ⟨fun x y => by rw [hf.same], fun {x n} hn => ?_⟩
  obtain rfl := Option.some.inj hn
  rcases hk : f (x ++ [semicolon]) with - | k
  · exact Nat.zero_le _
  · exact hf.le hk

/-- Reading one byte that is no semicolon. -/
theorem local_byte {b : UInt8} (hb : b ≠ semicolon) :
    Local fun t => if t.head? = some b then some 1 else none := by
  constructor
  · intro x y
    cases x with
    | nil => simp [hb.symm]
    | cons a x => rfl
  · intro x n hn
    cases x with
    | nil => simp [hb.symm] at hn
    | cons a x =>
      split at hn
      · cases hn
        exact Nat.succ_le_succ (Nat.zero_le _)
      · cases hn

theorem lt_of_before {x : Text} {i : Nat} {b : UInt8} (h : (x ++ [semicolon])[i]? = some b)
    (hb : b ≠ semicolon) : i < x.length := by
  rcases Nat.lt_or_ge i x.length with hi | hi
  · exact hi
  · rw [List.getElem?_append_right hi] at h
    have hzero : i - x.length = 0 := by
      have := Text.lt_length_of_getElem? h
      simpa using this
    rw [hzero] at h
    exact absurd (Option.some.inj h).symm hb

/-! ### Characters -/

namespace Utf8

theorem run_before {p : Nat → Bool} (hp : p 0x3B = false) (x y : Text) :
    run p (x ++ semicolon :: y) = run p (x ++ [semicolon]) ∧
      run p (x ++ [semicolon]) ≤ x.length := by
  induction hlen : x.length using Nat.strongRecOn generalizing x with
  | ind n ih =>
    subst hlen
    cases x with
    | nil =>
      have hzero (z : Text) : run p (semicolon :: z) = 0 := by
        rw [run, show readHead semicolon z = .scalar 0x3B 0 from rfl]
        simp [hp]
      rw [List.nil_append, List.nil_append, hzero, hzero]
      exact ⟨rfl, Nat.le_refl _⟩
    | cons a x =>
      have hhead (z : Text) : readHead a (x ++ semicolon :: z) = readHead a x :=
        readHead_separator (by decide) a x z
      rw [List.cons_append, List.cons_append, run, run, hhead, hhead]
      rcases hread : readHead a x with ⟨code, more⟩ | more
      · have hmore := (readHead_scalar hread).1
        simp only [drop_before hmore]
        obtain ⟨hsame, hle⟩ := ih (x.drop more).length
          (by rw [List.length_drop, List.length_cons]; omega) (x.drop more) rfl
        rw [hsame]
        refine ⟨rfl, ?_⟩
        simp only [List.length_drop, List.length_cons] at hle ⊢
        split <;> omega
      · exact ⟨rfl, Nat.zero_le _⟩

theorem local_run {p : Nat → Bool} (hp : p 0x3B = false) : Local fun t => some (run p t) := by
  refine ⟨fun x y => by rw [(run_before hp x y).1], fun {x n} hn => ?_⟩
  rw [← Option.some.inj hn]
  exact (run_before hp x []).2

end Utf8

namespace Text

theorem local_blankRun : Local fun t => some (blankRun t) := Utf8.local_run (by decide)

/-- A run ends before a byte that does not belong to it. -/
theorem takeWhile_before {p : UInt8 → Bool} {c : UInt8} (hp : p c = false) (x y : Text) :
    (x ++ c :: y).takeWhile p = x.takeWhile p := by
  induction x with
  | nil => simp [hp]
  | cons a x ih => rw [List.cons_append, List.takeWhile_cons, List.takeWhile_cons, ih]

theorem local_takeWhile {p : UInt8 → Bool} (hp : p semicolon = false) :
    Local fun t => some (t.takeWhile p).length := by
  refine ⟨fun x y => by rw [takeWhile_before hp, takeWhile_before hp], fun {x n} hn => ?_⟩
  rw [takeWhile_before hp] at hn
  rw [← Option.some.inj hn]
  exact (List.takeWhile_sublist p).length_le

theorem cons_of_getElem?_zero {r : Text} {b : UInt8} (h : r[0]? = some b) : ∃ r', r = b :: r' := by
  cases r with
  | nil => cases h
  | cons a r => exact ⟨r, by rw [← Option.some.inj h]⟩

theorem cons_cons_of_getElem? {r : Text} {b c : UInt8} (hb : r[0]? = some b) (hc : r[1]? = some c) :
    ∃ r', r = b :: c :: r' := by
  obtain ⟨r, rfl⟩ := cons_of_getElem?_zero hb
  obtain ⟨r, rfl⟩ := cons_of_getElem?_zero (r := r) (by simpa using hc)
  exact ⟨r, rfl⟩

theorem identStartFold?_cons (a : UInt8) (r : Text) :
    identStartFold? (a :: r) =
      if a = 0xC5 ∧ r[0]? = some 0xBF then some 2
      else if a = 0xE2 ∧ r[0]? = some 0x84 ∧ r[1]? = some 0xAA then some 3
      else if isIdentStart a then some 1 else none := by
  unfold identStartFold?
  split
  · next heq =>
    obtain ⟨rfl, rfl⟩ := List.cons.inj heq
    rfl
  · next heq =>
    obtain ⟨rfl, rfl⟩ := List.cons.inj heq
    rfl
  · next b r' h2 h3 heq =>
    obtain ⟨rfl, rfl⟩ := List.cons.inj heq
    have h2' : ¬(a = 0xC5 ∧ r[0]? = some 0xBF) := by
      rintro ⟨ha, hb⟩
      obtain ⟨r', hr⟩ := cons_of_getElem?_zero hb
      exact h2 r' ha hr
    have h3' : ¬(a = 0xE2 ∧ r[0]? = some 0x84 ∧ r[1]? = some 0xAA) := by
      rintro ⟨ha, hb, hc⟩
      obtain ⟨r', hr⟩ := cons_cons_of_getElem? hb hc
      exact h3 r' ha hr
    rw [if_neg h2', if_neg h3']
  · next heq => cases heq

theorem matchFold?_cons (w : UInt8) (ws : Text) (b : UInt8) (r : Text) :
    matchFold? (w :: ws) (b :: r) =
      if lower b = w then (matchFold? ws r).map (· + 1)
      else if b = 0xC5 ∧ r[0]? = some 0xBF ∧ w = 0x73 then (matchFold? ws (r.drop 1)).map (· + 2)
      else if b = 0xE2 ∧ r[0]? = some 0x84 ∧ r[1]? = some 0xAA ∧ w = 0x6B then
        (matchFold? ws (r.drop 2)).map (· + 3)
      else none := by
  conv => lhs; unfold matchFold?
  split
  · rfl
  · split
    · by_cases hw : w = 0x73 <;> simp [hw]
    · by_cases hw : w = 0x6B <;> simp [hw]
    · next h2 h3 =>
      have h2' : ¬(b = 0xC5 ∧ r[0]? = some 0xBF ∧ w = 0x73) := by
        rintro ⟨hb, hc, -⟩
        obtain ⟨r', hr⟩ := cons_of_getElem?_zero hc
        exact h2 r' hb hr
      have h3' : ¬(b = 0xE2 ∧ r[0]? = some 0x84 ∧ r[1]? = some 0xAA ∧ w = 0x6B) := by
        rintro ⟨hb, hc, hd, -⟩
        obtain ⟨r', hr⟩ := cons_cons_of_getElem? hc hd
        exact h3 r' hb hr
      rw [if_neg h2', if_neg h3']

/-- A word that begins with neither `s` nor `k` begins with its own letter in the text. -/
theorem matchFold?_lower {w : UInt8} {ws t : Text} {n : Nat}
    (h : matchFold? (w :: ws) t = some n) (hs : w ≠ 0x73) (hk : w ≠ 0x6B) :
    t[0]?.map lower = some w := by
  cases t with
  | nil => cases h
  | cons b r =>
    rw [matchFold?_cons] at h
    split at h
    · next hb => exact congrArg some hb
    · -- the other two ways to match are the case variants of `s` and `k`
      rw [if_neg fun h => hs h.2.2, if_neg fun h => hk h.2.2.2] at h
      cases h

/-- The further steps of a match stay before the semicolon as well. -/
theorem map_before {o o' : Option Nat} {k n l : Nat} (h : o = o' ∧ ∀ n, o' = some n → n ≤ l)
    (hk : l + k ≤ n) : o.map (· + k) = o'.map (· + k) ∧
      ∀ j, o'.map (· + k) = some j → j ≤ n := by
  obtain ⟨rfl, hle⟩ := h
  refine ⟨rfl, fun j hj => ?_⟩
  obtain ⟨i, hi, rfl⟩ := Option.map_eq_some_iff.mp hj
  have := hle i hi
  omega

theorem matchFold?_semicolon {w : UInt8} (hw : isLower w = true) (ws y : Text) :
    matchFold? (w :: ws) (semicolon :: y) = none := by
  have hne : lower semicolon ≠ w := by
    rintro rfl
    exact absurd hw (by decide)
  rw [matchFold?_cons, if_neg hne, if_neg (fun h => absurd h.1 (by decide)),
    if_neg (fun h => absurd h.1 (by decide))]

theorem local_matchFold? {word : Text} (hword : ∀ w ∈ word, isLower w = true) :
    Local (matchFold? word) := by
  suffices h : ∀ x y, matchFold? word (x ++ semicolon :: y) = matchFold? word (x ++ [semicolon]) ∧
      ∀ n, matchFold? word (x ++ [semicolon]) = some n → n ≤ x.length from
    ⟨fun x y => (h x y).1, fun hn => (h _ []).2 _ hn⟩
  induction word with
  | nil =>
    intro x y
    refine ⟨by rw [matchFold?, matchFold?], fun n hn => ?_⟩
    rw [matchFold?] at hn
    cases hn
    exact Nat.zero_le _
  | cons w word ih =>
    have hw := hword w List.mem_cons_self
    have ih := ih fun c hc => hword c (List.mem_cons_of_mem _ hc)
    intro x y
    cases x with
    | nil =>
      rw [List.nil_append, List.nil_append, matchFold?_semicolon hw, matchFold?_semicolon hw]
      exact ⟨rfl, fun n hn => nomatch hn⟩
    | cons b x =>
      rw [List.cons_append, List.cons_append, matchFold?_cons, matchFold?_cons]
      by_cases hb : lower b = w
      · rw [if_pos hb, if_pos hb]
        exact map_before (ih x y) (Nat.le_refl _)
      · rw [if_neg hb, if_neg hb]
        -- a character of two or three bytes does not reach the semicolon
        have h₂ : semicolon ≠ 0xBF := by decide
        have h₃ : semicolon ≠ 0x84 := by decide
        have h₄ : semicolon ≠ 0xAA := by decide
        match x with
        | [] => simp [h₂, h₃]
        | [c] =>
          by_cases hs : b = 0xC5 ∧ c = 0xBF ∧ w = 0x73
          · simpa [hs] using map_before (ih [] y) (k := 2) (n := 2) (by simp)
          · simp [hs, h₄]
        | c :: d :: x =>
          by_cases hs : b = 0xC5 ∧ c = 0xBF ∧ w = 0x73
          · simpa [hs] using map_before (ih (d :: x) y) (k := 2) (n := x.length + 3) (by simp)
          · by_cases hk : b = 0xE2 ∧ c = 0x84 ∧ d = 0xAA ∧ w = 0x6B
            · simpa [hs, hk] using map_before (ih x y) (k := 3) (n := x.length + 3) (by simp)
            · simp [hs, hk]

theorem identStartFold?_semicolon (y : Text) : identStartFold? (semicolon :: y) = none := by
  rw [identStartFold?_cons, if_neg (fun h => absurd h.1 (by decide)),
    if_neg (fun h => absurd h.1 (by decide)), if_neg (by decide)]

theorem local_identStartFold? : Local identStartFold? := by
  have h₂ : semicolon ≠ 0xBF := by decide
  have h₃ : semicolon ≠ 0x84 := by decide
  have h₄ : semicolon ≠ 0xAA := by decide
  constructor
  · intro x y
    match x with
    | [] => rw [List.nil_append, List.nil_append, identStartFold?_semicolon, identStartFold?_semicolon]
    | [a] =>
      simp only [List.cons_append, List.nil_append, identStartFold?_cons]
      simp [h₂, h₃]
    | [a, b] =>
      simp only [List.cons_append, List.nil_append, identStartFold?_cons]
      simp [h₄]
    | a :: b :: c :: x => simp only [List.cons_append, identStartFold?_cons]; simp
  · intro x n hn
    cases x with
    | nil =>
      rw [List.nil_append, identStartFold?_semicolon] at hn
      cases hn
    | cons a x =>
      rw [List.cons_append, identStartFold?_cons] at hn
      rw [List.length_cons]
      split at hn
      · next h =>
        have := lt_of_before h.2 h₂.symm
        cases hn
        omega
      · split at hn
        · next h =>
          have := lt_of_before h.2.2 h₄.symm
          cases hn
          omega
        · split at hn
          · cases hn
            omega
          · cases hn

theorem local_identFold? : Local identFold? :=
  local_identStartFold?.andThen (Utf8.local_run (by decide))

end Text

end PascalSurvey
