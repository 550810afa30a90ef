/-
PascalSurvey/Proofs/Text/Crlf.lean

Line ends of two bytes.  `crlf` puts a carriage return in front of every line feed, and
`crlfOffset` says where an offset of the text goes: cutting the longer text there is cutting the
text (`take_crlf`, `drop_crlf`).  Nothing that is read with the length of gaps left open tells
the two texts apart, so an elastic reader ends at the same place in both (`Elastic.stretches`).

A search sees one place more for each line feed, between the two bytes.  If it finds nothing at
those places, it finds the same in both texts (`search?_crlf`, `searchAll_crlf`).
-/
import PascalSurvey.Proofs.Text.Elastic

namespace PascalSurvey

open Ascii

namespace Text

/-- The text with a carriage return in front of every line feed. -/
def crlf (t : Text) : Text := t.flatMap fun b => if b = newline then [cr, newline] else [b]

/-- Where an offset of a text is in the text with the longer line ends. -/
def crlfOffset (t : Text) (n : Nat) : Nat := n + breaks (t.take n)

/-- Where a range of a text is in the text with the longer line ends. -/
def crlfRange (t : Text) (r : Nat × Nat) : Nat × Nat := (crlfOffset t r.1, crlfOffset t r.2)

variable {t : Text} {n m : Nat} {b : UInt8}

@[simp] theorem crlf_nil : crlf [] = [] := rfl

@[simp] theorem crlf_newline (r : Text) : crlf (newline :: r) = cr :: newline :: crlf r := rfl

theorem crlf_cons (hb : b ≠ newline) (r : Text) : crlf (b :: r) = b :: crlf r := by
  rw [crlf, List.flatMap_cons, if_neg hb]
  rfl

@[simp] theorem crlf_append (x y : Text) : crlf (x ++ y) = crlf x ++ crlf y :=
  List.flatMap_append

/-- Within a line nothing changes. -/
theorem crlf_line (h : newline ∉ t) : crlf t = t := by
  induction t with
  | nil => rfl
  | cons b t ih =>
    rw [List.mem_cons, not_or] at h
    rw [crlf_cons (Ne.symm h.1), ih h.2]

/-- The lines of the longer text end with a carriage return and a line feed. -/
theorem crlf_line_append (h : newline ∉ t) (v : Text) :
    crlf (t ++ newline :: v) = t ++ [cr] ++ newline :: crlf v := by
  rw [crlf_append, crlf_line h, crlf_newline, List.append_assoc]
  rfl

theorem newline_not_mem_concat_cr (h : newline ∉ t) : newline ∉ t ++ [cr] := by
  rw [List.mem_append, not_or]
  exact ⟨h, by decide⟩

theorem crlf_eq_nil_iff : crlf t = [] ↔ t = [] := by
  constructor
  · intro h
    cases t with
    | nil => rfl
    | cons b t =>
      by_cases hb : b = newline
      · subst hb
        cases h
      · rw [crlf_cons hb] at h
        cases h
  · rintro rfl
    rfl

theorem isEmpty_crlf (t : Text) : (crlf t).isEmpty = t.isEmpty := by
  rw [Bool.eq_iff_iff, List.isEmpty_iff, List.isEmpty_iff, crlf_eq_nil_iff]

/-- The line ends of a text whose bytes are changed, none of them from or into a line feed. -/
theorem map_crlf {f : UInt8 → UInt8} (hline : f newline = newline) (hcr : f cr = cr)
    (hne : ∀ b, b ≠ newline → f b ≠ newline) (t : Text) : (crlf t).map f = crlf (t.map f) := by
  induction t with
  | nil => rfl
  | cons b t ih =>
    by_cases hb : b = newline
    · subst hb
      rw [crlf_newline, List.map_cons, List.map_cons, List.map_cons, ih, hcr, hline, crlf_newline]
    · rw [crlf_cons hb, List.map_cons, List.map_cons, crlf_cons (hne b hb), ih]

theorem lower_ne_newline (hb : b ≠ newline) : lower b ≠ newline := by
  rw [lower]
  split
  · next hupper =>
    simp only [isUpper, Bool.and_eq_true, decide_eq_true_eq, UInt8.le_iff_toNat_le,
      UInt8.reduceToNat] at hupper
    intro heq
    have hcode : (b + 0x20).toNat = 10 := congrArg UInt8.toNat heq
    simp only [UInt8.toNat_add, UInt8.reduceToNat] at hcode
    omega
  · exact hb

theorem toLower_crlf (t : Text) : toLower (crlf t) = crlf (toLower t) :=
  map_crlf rfl rfl (fun _ => lower_ne_newline) t

/-- Induction line by line. -/
theorem linewise {motive : Text → Prop} (last : ∀ u, newline ∉ u → motive u)
    (line : ∀ u v, newline ∉ u → motive v → motive (u ++ newline :: v)) (t : Text) : motive t := by
  induction hlen : t.length using Nat.strongRecOn generalizing t with
  | ind n ih =>
    subst hlen
    by_cases hmem : newline ∈ t
    · obtain ⟨u, v, rfl, hu⟩ := List.eq_append_cons_of_mem hmem
      refine line u v hu (ih v.length ?_ v rfl)
      rw [List.length_append, List.length_cons]
      omega
    · exact last t hmem

theorem breaks_append (x y : Text) : breaks (x ++ y) = breaks x + breaks y := List.count_append

theorem breaks_cons (b : UInt8) (r : Text) :
    breaks (b :: r) = breaks r + if b = newline then 1 else 0 := by
  rw [breaks, List.count_cons, breaks]
  simp only [beq_iff_eq]

@[simp] theorem length_crlf (t : Text) : (crlf t).length = t.length + breaks t := by
  induction t with
  | nil => rfl
  | cons b t ih =>
    rw [breaks_cons]
    by_cases hb : b = newline
    · subst hb
      rw [crlf_newline, List.length_cons, List.length_cons, List.length_cons, ih, if_pos rfl]
      omega
    · rw [crlf_cons hb, List.length_cons, List.length_cons, ih, if_neg hb]
      omega

@[simp] theorem breaks_crlf (t : Text) : breaks (crlf t) = breaks t := by
  induction t with
  | nil => rfl
  | cons b t ih =>
    by_cases hb : b = newline
    · subst hb
      rw [crlf_newline, breaks_cons, breaks_cons, breaks_cons, ih]
      rfl
    · rw [crlf_cons hb, breaks_cons, breaks_cons, ih]

/-- Only a text of one line stays as it is. -/
theorem crlf_eq_self_iff : crlf t = t ↔ newline ∉ t := by
  constructor
  · intro h
    have hlen := congrArg List.length h
    rw [length_crlf, Nat.add_eq_left] at hlen
    exact List.count_eq_zero.mp hlen
  · exact crlf_line

/-! ### Offsets -/

theorem take_crlf (t : Text) (n : Nat) : (crlf t).take (crlfOffset t n) = crlf (t.take n) := by
  rcases Nat.lt_or_ge t.length n with hlt | hge
  · have htake : t.take n = t := List.take_of_length_le (Nat.le_of_lt hlt)
    rw [crlfOffset, htake, List.take_of_length_le]
    rw [length_crlf]
    omega
  · have hlen : (crlf (t.take n)).length = crlfOffset t n := by
      rw [length_crlf, List.length_take, Nat.min_eq_left hge, crlfOffset]
    conv_lhs => rw [← List.take_append_drop n t, crlf_append]
    rw [List.take_append_drop, List.take_left' hlen]

theorem drop_crlf (t : Text) (n : Nat) : (crlf t).drop (crlfOffset t n) = crlf (t.drop n) := by
  have hboth : crlf (t.take n) ++ (crlf t).drop (crlfOffset t n) =
      crlf (t.take n) ++ crlf (t.drop n) := by
    rw [← crlf_append, List.take_append_drop, ← take_crlf, List.take_append_drop]
  exact List.append_cancel_left hboth

theorem crlfOffset_add (t : Text) (n m : Nat) :
    crlfOffset t (n + m) = crlfOffset t n + crlfOffset (t.drop n) m := by
  rw [crlfOffset, crlfOffset, crlfOffset, List.take_add, breaks_append]
  omega

@[simp] theorem crlfOffset_zero (t : Text) : crlfOffset t 0 = 0 := rfl

theorem crlfOffset_length (t : Text) : crlfOffset t t.length = (crlf t).length := by
  rw [crlfOffset, List.take_length, length_crlf]

/-- Within the first line an offset stays. -/
theorem crlfOffset_line (h : newline ∉ t.take n) : crlfOffset t n = n := by
  rw [crlfOffset, breaks, List.count_eq_zero.mpr h, Nat.add_zero]

theorem crlfOffset_eq_zero_iff : crlfOffset t n = 0 ↔ n = 0 := by
  constructor
  · intro h
    rw [crlfOffset] at h
    omega
  · rintro rfl
    rfl

/-- Within a slice an offset goes where it goes behind the start of the slice. -/
theorem crlfOffset_slice {s e : Nat} (h : n ≤ (slice t s e).length) :
    crlfOffset t s + crlfOffset (slice t s e) n = crlfOffset t (s + n) := by
  rw [slice, List.length_take] at h
  have hn : n ≤ e - s := Nat.le_trans h (Nat.min_le_left _ _)
  rw [crlfOffset_add, slice, crlfOffset, crlfOffset, crlfOffset, List.take_take, Nat.min_eq_left hn]

theorem crlfOffset_lt_iff : crlfOffset t n < crlfOffset t m ↔ n < m := by
  have hmono {i j : Nat} (h : i ≤ j) : breaks (t.take i) ≤ breaks (t.take j) :=
    breaks_take_mono t h
  constructor
  · intro h
    by_contra hle
    have := hmono (Nat.le_of_not_lt hle)
    rw [crlfOffset, crlfOffset] at h
    omega
  · intro h
    have := hmono (Nat.le_of_lt h)
    rw [crlfOffset, crlfOffset]
    omega

theorem crlfOffset_le {i : Nat} (h : i ≤ t.length) : crlfOffset t i ≤ (crlf t).length := by
  rw [← crlfOffset_length, ← Nat.not_lt, crlfOffset_lt_iff, Nat.not_lt]
  exact h

theorem crlfOffset_succ {i : Nat} (h : t[i]? = some b) :
    crlfOffset t (i + 1) = crlfOffset t i + 1 + if b = newline then 1 else 0 := by
  have hone (r : Text) : crlfOffset (b :: r) 1 = 1 + if b = newline then 1 else 0 := by
    rw [crlfOffset, List.take_succ_cons, List.take_zero, breaks_cons]
    simp [breaks]
  rw [crlfOffset_add, drop_of_getElem? h, hone, Nat.add_assoc]

theorem crlfOffset_cons (b : UInt8) (r : Text) (n : Nat) :
    crlfOffset (b :: r) (n + 1) = crlfOffset r n + 1 + if b = newline then 1 else 0 := by
  have hone := crlfOffset_succ (t := b :: r) (i := 0) rfl
  rw [crlfOffset_zero, Nat.zero_add] at hone
  rw [Nat.add_comm n, crlfOffset_add, hone, List.drop_succ_cons, List.drop_zero]
  omega

theorem crlfOffset_cons_of_ne (hb : b ≠ newline) (r : Text) (n : Nat) :
    crlfOffset (b :: r) (n + 1) = crlfOffset r n + 1 := by
  rw [crlfOffset_cons, if_neg hb, Nat.add_zero]

/-- A byte that is no line end stands at the head of both texts. -/
theorem head?_crlf {c : UInt8} (hline : c ≠ newline) (hcr : c ≠ cr) :
    (crlf t).head? = some c ↔ t.head? = some c := by
  cases t with
  | nil => exact Iff.rfl
  | cons b r =>
    by_cases hb : b = newline
    · subst hb
      rw [crlf_newline, List.head?_cons, List.head?_cons]
      exact ⟨fun h => absurd (Option.some.inj h).symm hcr,
        fun h => absurd (Option.some.inj h).symm hline⟩
    · rw [crlf_cons hb, List.head?_cons, List.head?_cons]

theorem cons_of_crlf {c : UInt8} (hline : c ≠ newline) (hcr : c ≠ cr)
    (h : (crlf t)[0]? = some c) : ∃ r, t = c :: r := by
  rw [← List.head?_eq_getElem?] at h
  exact List.head?_eq_some_iff.mp ((head?_crlf hline hcr).mp h)

theorem crlf_ne_newline_cons (t r : Text) : crlf t ≠ newline :: r := by
  cases t with
  | nil => exact (List.cons_ne_nil _ _).symm
  | cons b t =>
    by_cases hb : b = newline
    · subst hb
      exact fun h => absurd (List.cons.inj h).1 (by decide)
    · rw [crlf_cons hb]
      exact fun h => hb (List.cons.inj h).1

/-- What a text begins with, if that holds no line end. -/
theorem after?_crlf {w : Text} (hline : newline ∉ w) (hcr : cr ∉ w) (t : Text) :
    after? w (crlf t) = (after? w t).map crlf := by
  induction w generalizing t with
  | nil => rfl
  | cons a w ih =>
    rw [List.mem_cons, not_or] at hline hcr
    cases t with
    | nil => rfl
    | cons b t =>
      by_cases hb : b = newline
      · subst hb
        rw [crlf_newline, after?, if_neg (Ne.symm hcr.1), after?, if_neg (Ne.symm hline.1)]
        rfl
      · rw [crlf_cons hb, after?, after?, ih hline.2 hcr.2]
        split <;> rfl

theorem startsWith_crlf {w : Text} (hline : newline ∉ w) (hcr : cr ∉ w) (t : Text) :
    startsWith (crlf t) w = startsWith t w := by
  rw [startsWith, startsWith, after?_crlf hline hcr, Option.isSome_map]

/-- Nothing ends its line with a line feed alone. -/
theorem startsWith_crlf_newline {w : Text} (hline : newline ∉ w) (hcr : cr ∉ w) (t : Text) :
    startsWith (crlf t) (w ++ [newline]) = false := by
  rw [startsWith, Bool.eq_false_iff]
  intro h
  obtain ⟨r, hr⟩ := Option.isSome_iff_exists.mp h
  rw [after?_eq_some_iff, List.append_assoc, List.singleton_append, ← after?_eq_some_iff,
    after?_crlf hline hcr] at hr
  obtain ⟨x, -, hx⟩ := Option.map_eq_some_iff.mp hr
  exact crlf_ne_newline_cons x r hx

theorem slice_crlf (t : Text) (s e : Nat) :
    slice (crlf t) (crlfOffset t s) (crlfOffset t e) = crlf (slice t s e) := by
  have hdiff : crlfOffset t e - crlfOffset t s = crlfOffset (t.drop s) (e - s) := by
    rcases Nat.le_total s e with hle | hle
    · obtain ⟨k, rfl⟩ := Nat.exists_eq_add_of_le hle
      rw [crlfOffset_add, Nat.add_sub_cancel_left, Nat.add_sub_cancel_left]
    · have := breaks_take_mono t hle
      rw [Nat.sub_eq_zero_of_le hle, crlfOffset_zero, crlfOffset, crlfOffset]
      omega
  rw [slice, slice, drop_crlf, hdiff, take_crlf]

theorem lineOf_crlf (t : Text) (n : Nat) : lineOf (crlf t) (crlfOffset t n) = lineOf t n := by
  rw [lineOf, lineOf, take_crlf, breaks_crlf]

/-! ### Readers -/

/-- A reader that ends at the same place with either line ends. -/
def Stretches (f : Text → Option Nat) : Prop := ∀ t, f (crlf t) = (f t).map (crlfOffset t)

end Text

open Text

theorem isGap_newline : IsGap [newline] := ⟨by simp, by simp [isBlank]⟩

theorem isGap_cr : IsGap [cr] := ⟨by simp, by simp [isBlank]⟩

theorem isGap_crlf : IsGap [cr, newline] := ⟨by simp, by simp [isBlank]⟩

theorem breaks_take_concat (x : Text) (b : UInt8) (n : Nat) :
    breaks ((x ++ [b]).take n) =
      breaks (x.take n) + if b = newline ∧ x.length < n then 1 else 0 := by
  rw [List.take_append, breaks_append]
  congr 1
  rcases Nat.lt_or_ge x.length n with hlt | hge
  · obtain ⟨k, hk⟩ := Nat.exists_eq_add_of_lt hlt
    rw [hk, Nat.add_assoc, Nat.add_sub_cancel_left, List.take_succ_cons, List.take_nil, breaks_cons]
    simp [breaks]
  · rw [Nat.sub_eq_zero_of_le hge, List.take_zero, if_neg fun h => Nat.not_le.mpr h.2 hge]
    rfl

/-- What ends at the same place around one line feed is moved by it, or stands in front of it. -/
theorem place_newline {x y : Text} {n m : Nat}
    (h : SamePlace (crlf x) [newline] [cr, newline] y (n + breaks (x.take n)) m) :
    m = n + breaks ((x ++ [newline]).take n) := by
  rw [breaks_take_concat]
  have hlen := length_crlf x
  have hle := breaks_take_le x n
  have hall (hge : x.length ≤ n) : breaks (x.take n) = breaks x := by
    rw [List.take_of_length_le hge]
  generalize hk : n + breaks (x.take n) = k at h
  cases h with
  | front h =>
    rw [if_neg, ← hk, Nat.add_zero]
    rintro ⟨-, hlt⟩
    have := hall (Nat.le_of_lt hlt)
    omega
  | @behind j h =>
    rw [List.length_singleton] at hk
    have hlt : x.length < n := by
      by_contra hge
      omega
    rw [if_pos ⟨rfl, hlt⟩, List.length_cons, List.length_singleton]
    omega

/-- **An elastic reader ends at the same place with either line ends.** -/
theorem Elastic.stretches {f : Text → Option Nat} (hf : Elastic f) : Stretches f := by
  -- the line feeds are changed one after the other, the first one first
  have hfront (x : Text) : ∀ y,
      f (crlf x ++ y) = (f (x ++ y)).map fun n => n + breaks (x.take n) := by
    induction x using List.reverseRecOn with
    | nil => simp [breaks]
    | append_singleton x b ih =>
      intro y
      have hx := ih (b :: y)
      rw [crlf_append, List.append_assoc, List.append_assoc, List.singleton_append]
      by_cases hb : b = newline
      · subst hb
        have hplace := hf.place (u := crlf x) (v := y) isGap_newline isGap_crlf
        rw [List.append_assoc, List.singleton_append, hx, List.append_assoc] at hplace
        show f (crlf x ++ ([cr, newline] ++ y)) = _
        generalize f (crlf x ++ ([cr, newline] ++ y)) = long at hplace
        cases hn : f (x ++ newline :: y) with
        | none =>
          rw [hn] at hplace
          cases hplace
          rfl
        | some n =>
          rw [hn] at hplace
          cases hplace with
          | some hsame => rw [place_newline hsame, Option.map_some]
      · have hone : crlf [b] = [b] := crlf_line (by simpa using Ne.symm hb)
        have hsame : (fun n => n + breaks ((x ++ [b]).take n)) =
            fun n => n + breaks (x.take n) := by
          funext n
          rw [breaks_take_concat, if_neg fun h => hb h.1, Nat.add_zero]
        rw [hone, List.singleton_append, hx, hsame]
  intro t
  have ht := hfront t []
  rwa [List.append_nil, List.append_nil] at ht

namespace Text

variable {f g : Text → Option Nat} {t : Text} {n : Nat}

/-- One such reader behind another ends at the same place. -/
theorem Stretches.andThen (hf : Stretches f) (hg : Stretches g) :
    Stretches fun t => (f t).bind fun n => (g (t.drop n)).map (n + ·) := by
  intro t
  dsimp only
  rw [hf]
  cases f t with
  | none => rfl
  | some n =>
    rw [Option.map_some, Option.bind_some, Option.bind_some, drop_crlf, hg, Option.map_map,
      Option.map_map]
    congr 1
    funext m
    exact (crlfOffset_add t n m).symm

/-- The first of several words at the head of a text. -/
theorem Stretches.findSome? {α : Type} {f : α → Text → Option Nat} (words : List α)
    (h : ∀ w ∈ words, Stretches (f w)) : Stretches fun t => words.findSome? fun w => f w t := by
  intro t
  induction words with
  | nil => rfl
  | cons w ws ih =>
    dsimp only
    rw [List.findSome?_cons, List.findSome?_cons, h w List.mem_cons_self]
    cases f w t with
    | none => exact ih fun v hv => h v (List.mem_cons_of_mem _ hv)
    | some n => rfl

theorem blankRun_crlf (t : Text) : blankRun (crlf t) = crlfOffset t (blankRun t) :=
  Option.some.inj (elastic_blankRun.stretches t)

theorem trimStart_crlf (t : Text) : trimStart (crlf t) = crlf (trimStart t) := by
  rw [trimStart, trimStart, blankRun_crlf, drop_crlf]

/-- A byte that is no line end stands at the same place. -/
theorem find?_crlf {c : UInt8} (hline : c ≠ newline) (hcr : c ≠ cr) : Stretches (find? c) := by
  intro t
  induction t with
  | nil => rfl
  | cons b t ih =>
    have hcons (b : UInt8) (r : Text) : find? c (b :: r) =
        if b = c then some 0 else (find? c r).map (· + 1) := by
      rw [find?, List.findIdx?_cons]
      simp only [beq_iff_eq]
      rfl
    by_cases hb : b = newline
    · subst hb
      rw [crlf_newline, hcons, if_neg (Ne.symm hcr), hcons, if_neg (Ne.symm hline), hcons,
        if_neg (Ne.symm hline), ih]
      simp only [Option.map_map]
      congr 1
      funext n
      rw [Function.comp_apply, Function.comp_apply, Function.comp_apply, crlfOffset_cons,
        if_pos rfl]
    · rw [crlf_cons hb, hcons, hcons, ih]
      split
      · rfl
      · simp only [Option.map_map]
        congr 1
        funext n
        rw [Function.comp_apply, Function.comp_apply, crlfOffset_cons, if_neg hb, Nat.add_zero]

/-- The longest beginning of bytes of a class, to which both line ends belong. -/
theorem takeWhile_crlf {p : UInt8 → Bool} (hline : p newline = true) (hcr : p cr = true)
    (t : Text) : (crlf t).takeWhile p = crlf (t.takeWhile p) := by
  induction t with
  | nil => rfl
  | cons b t ih =>
    by_cases hb : b = newline
    · subst hb
      rw [crlf_newline, List.takeWhile_cons_of_pos hcr, List.takeWhile_cons_of_pos hline,
        List.takeWhile_cons_of_pos hline, ih, crlf_newline]
    · rw [crlf_cons hb]
      cases hp : p b with
      | true =>
        rw [List.takeWhile_cons_of_pos hp, List.takeWhile_cons_of_pos hp, crlf_cons hb, ih]
      | false =>
        have hneg : ¬p b = true := by simp [hp]
        rw [List.takeWhile_cons_of_neg hneg, List.takeWhile_cons_of_neg hneg, crlf_nil]

/-! ### Blanks and words -/

theorem trimEnd_crlf (t : Text) : trimEnd (crlf t) = crlf (trimEnd t) := by
  induction t using linewise with
  | last u hu =>
    have hend : newline ∉ trimEnd u := fun hmem => hu ((isPrefix_trimEnd u).subset hmem)
    rw [crlf_line hu, crlf_line hend]
  | line u v hu ih =>
    have hend : newline ∉ trimEnd u := fun hmem => hu ((isPrefix_trimEnd u).subset hmem)
    have hshort := trimEnd_gap isGap_newline u v
    have hlong := trimEnd_gap isGap_crlf u (crlf v)
    rw [List.append_assoc, List.singleton_append] at hshort
    rw [List.append_assoc] at hlong
    rw [crlf_append, crlf_line hu, crlf_newline, hshort]
    show trimEnd (u ++ ([cr, newline] ++ crlf v)) = _
    rw [hlong, ih]
    simp only [crlf_eq_nil_iff]
    split
    · rw [crlf_line hend]
    · simp only [List.append_assoc, List.singleton_append, crlf_append, crlf_line hu, crlf_newline]
      rfl

theorem trim_crlf (t : Text) : trim (crlf t) = crlf (trim t) := by
  rw [trim, trimStart_crlf, trimEnd_crlf, trim]

theorem withoutBlanks_crlf (t : Text) : withoutBlanks (crlf t) = withoutBlanks t := by
  -- what stands in front of a line may hold the beginning of a character
  suffices hfront : ∀ p, withoutBlanks (p ++ crlf t) = withoutBlanks (p ++ t) from hfront []
  induction t using linewise with
  | last u hu =>
    intro p
    rw [crlf_line hu]
  | line u v hu ih =>
    intro p
    have hcut (z : Text) : Uncut (newline :: z) := uncut_ascii (by decide) z
    have hlong : Uncut (cr :: newline :: crlf v) := uncut_ascii (by decide) _
    have hcr : withoutBlanks (cr :: newline :: crlf v) = withoutBlanks (newline :: crlf v) := by
      rw [← List.singleton_append, withoutBlanks_append _ (hcut _),
        withoutBlanks_blanks isGap_cr.blanks]
      rfl
    have hline := ih [newline]
    rw [List.singleton_append, List.singleton_append] at hline
    rw [crlf_append, crlf_line hu, crlf_newline, ← List.append_assoc, ← List.append_assoc,
      withoutBlanks_append _ hlong, withoutBlanks_append _ (hcut v), hcr, hline]

/-- What stands in front of the last line does not count for the word that ends there. -/
theorem endsWord_crlf (t : Text) : endsWord (crlf t).reverse = endsWord t.reverse := by
  by_cases hmem : newline ∈ t
  · obtain ⟨a, b, hrev, ha⟩ := List.eq_append_cons_of_mem (List.mem_reverse.mpr hmem)
    have ht : t = b.reverse ++ newline :: a.reverse := by
      rw [← List.reverse_reverse t, hrev]
      simp
    have hlast : crlf a.reverse = a.reverse := crlf_line (by rwa [List.mem_reverse])
    have hlong : (crlf t).reverse = a ++ newline :: cr :: (crlf b.reverse).reverse := by
      rw [ht, crlf_append, crlf_newline, hlast]
      simp
    rw [hlong, hrev, endsWord_separator rfl, endsWord_separator rfl]
  · rw [crlf_line hmem]

/-- No word begins with a line end. -/
theorem matchFold?_newline {word : Text} (hne : word ≠ []) (hword : ∀ w ∈ word, isLower w = true)
    (r : Text) : matchFold? word (newline :: r) = none := by
  obtain ⟨w, ws, rfl⟩ := List.exists_cons_of_ne_nil hne
  rw [← List.nil_append (newline :: r), matchFold?_separator rfl hword]
  rfl

theorem matchWord?_newline {word : Text} (hne : word ≠ []) (hword : ∀ w ∈ word, isLower w = true)
    (r : Text) : matchWord? word (newline :: r) = none := by
  rw [matchWord?, matchFold?_newline hne hword]
  rfl

/-- A word stands on one line. -/
theorem newline_not_mem_matchFold? {word : Text} (hword : ∀ w ∈ word, isLower w = true)
    (h : matchFold? word t = some n) : newline ∉ t.take n := by
  intro hmem
  rcases mem_take_matchFold? h hword hmem with h | h <;> exact absurd h (by decide)

theorem getLast?_crlf (t : Text) : (crlf t).getLast? = t.getLast? := by
  rcases List.eq_nil_or_concat t with rfl | ⟨u, b, rfl⟩
  · rfl
  · rw [List.concat_eq_append, crlf_append]
    by_cases hb : b = newline
    · subst hb
      show (crlf u ++ ([cr] ++ [newline])).getLast? = _
      rw [← List.append_assoc, List.getLast?_concat, List.getLast?_concat]
    · rw [crlf_line (t := [b]) (by simpa using Ne.symm hb), List.getLast?_concat,
        List.getLast?_concat]

/-! ### The number of lines -/

theorem split_line {u : Text} (hu : newline ∉ u) : split newline u = [u] := by
  induction u with
  | nil => rfl
  | cons b u ih =>
    rw [List.mem_cons, not_or] at hu
    have hb : (b == newline) = false := beq_eq_false_iff_ne.mpr (Ne.symm hu.1)
    have hrest : splitWhere (· == newline) u = [u] := ih hu.2
    rw [split, splitWhere, hb, hrest]
    rfl

theorem split_newline {u : Text} (hu : newline ∉ u) (v : Text) :
    split newline (u ++ newline :: v) = u :: split newline v := by
  induction u with
  | nil => rfl
  | cons b u ih =>
    rw [List.mem_cons, not_or] at hu
    have hb : (b == newline) = false := beq_eq_false_iff_ne.mpr (Ne.symm hu.1)
    have hrest : splitWhere (· == newline) (u ++ newline :: v) =
        u :: splitWhere (· == newline) v := ih hu.2
    rw [List.cons_append, split, splitWhere, hb, hrest]
    rfl

theorem split_newline_ne_nil (t : Text) : split newline t ≠ [] := by
  induction t using linewise with
  | last u hu =>
    rw [split_line hu]
    exact List.cons_ne_nil _ _
  | line u v hu _ =>
    rw [split_newline hu]
    exact List.cons_ne_nil _ _

/-- The lines of a text, one behind the other. -/
theorem lines_newline {u : Text} (hu : newline ∉ u) (v : Text) :
    lines (u ++ newline :: v) = withoutCr u :: lines v := by
  rw [lines, lines, split_newline hu, List.reverse_cons]
  rcases hv : (split newline v).reverse with - | ⟨rest, whole⟩
  · exact absurd (List.reverse_eq_nil_iff.mp hv) (split_newline_ne_nil v)
  · cases rest <;> simp

theorem length_lines_crlf (t : Text) : (lines (crlf t)).length = (lines t).length := by
  induction t using linewise with
  | last u hu => rw [crlf_line hu]
  | line u v hu ih =>
    rw [crlf_line_append hu, lines_newline (newline_not_mem_concat_cr hu), lines_newline hu,
      List.length_cons, List.length_cons, ih]

end Text

namespace Cursor

open Text

/-! ### Searches -/

section
variable {t : Text} {i : Nat}

theorem before_crlf (t : Text) (i : Nat) :
    (ofOffset (crlf t) (crlfOffset t i)).before = (crlf (t.take i)).reverse := by
  rw [before_ofOffset, take_crlf]

theorem after_crlf (t : Text) (i : Nat) :
    (ofOffset (crlf t) (crlfOffset t i)).after = crlf (t.drop i) := by
  rw [after_ofOffset, drop_crlf]

/-- Between the two bytes of a line end. -/
theorem ofOffset_inside (h : t[i]? = some newline) :
    ofOffset (crlf t) (crlfOffset t i + 1) =
      ⟨crlfOffset t i + 1, cr :: (crlf (t.take i)).reverse, newline :: crlf (t.drop (i + 1))⟩ := by
  have hlt := lt_length_of_getElem? h
  have hdrop : (crlf t).drop (crlfOffset t i) = cr :: newline :: crlf (t.drop (i + 1)) := by
    rw [drop_crlf, drop_of_getElem? h, crlf_newline]
  have hle : crlfOffset t i + 1 ≤ (crlf t).length := by
    have := congrArg List.length hdrop
    rw [List.length_drop, List.length_cons] at this
    omega
  rw [ofOffset_of_le hle, ← List.drop_drop, hdrop, List.take_add, take_crlf, hdrop]
  simp

theorem ofOffset_crlf_min (t : Text) (i : Nat) :
    ofOffset (crlf t) (crlfOffset t (min i t.length)) = ofOffset (crlf t) (crlfOffset t i) := by
  rcases Nat.le_total i t.length with hle | hge
  · rw [Nat.min_eq_left hle]
  · have hlen : (crlf t).length ≤ crlfOffset t i := by
      rw [length_crlf, crlfOffset, List.take_of_length_le hge]
      omega
    rw [Nat.min_eq_right hge, crlfOffset_length, ← ofOffset_min _ (crlfOffset t i),
      Nat.min_eq_right hlen]

variable {α β : Type}

/-! One step of a search. -/

theorem atEnd_ofOffset (t : Text) (i : Nat) : (ofOffset t i).atEnd = decide (t.length ≤ i) := by
  rw [Bool.eq_iff_iff, atEnd, after_ofOffset, List.isEmpty_iff, List.drop_eq_nil_iff,
    decide_eq_true_eq]

theorem search?_step (p : Cursor → Option α) (h : i < t.length) :
    (ofOffset t i).search? p = (p (ofOffset t i)).or ((ofOffset t (i + 1)).search? p) := by
  rw [search?, atEnd_ofOffset, decide_eq_false (Nat.not_le.mpr h),
    advance_ofOffset (Nat.le_of_lt h)]
  cases p (ofOffset t i) <;> rfl

theorem search?_end (p : Cursor → Option α) (t : Text) :
    (ofOffset t t.length).search? p = p (ofOffset t t.length) := by
  rw [search?, atEnd_ofOffset, decide_eq_true (Nat.le_refl _)]
  cases p (ofOffset t t.length) <;> rfl

theorem searchAll_step (p : Cursor → Option (α × Nat)) (h : i < t.length) :
    (ofOffset t i).searchAll p = match p (ofOffset t i) with
      | some (a, n) => a :: (ofOffset t (i + max 1 n)).searchAll p
      | none => (ofOffset t (i + 1)).searchAll p := by
  rw [searchAll, atEnd_ofOffset, decide_eq_false (Nat.not_le.mpr h)]
  simp only [advance_ofOffset (Nat.le_of_lt h)]
  rcases p (ofOffset t i) with - | ⟨a, n⟩ <;> rfl

theorem searchAll_end (p : Cursor → Option (α × Nat)) (t : Text) :
    (ofOffset t t.length).searchAll p = ((p (ofOffset t t.length)).map Prod.fst).toList := by
  rw [searchAll, atEnd_ofOffset, decide_eq_true (Nat.le_refl _)]
  rcases p (ofOffset t t.length) with - | ⟨a, n⟩ <;> rfl

/-- **A search finds the same with either line ends**, if it finds nothing between the two bytes
of a line end. -/
theorem search?_crlf {p : Cursor → Option α} {p' : Cursor → Option β} {F : α → β}
    (hat : ∀ i ≤ t.length, p' (ofOffset (crlf t) (crlfOffset t i)) = (p (ofOffset t i)).map F)
    (hinside : ∀ i, t[i]? = some newline → p' (ofOffset (crlf t) (crlfOffset t i + 1)) = none) :
    (start (crlf t)).search? p' = ((start t).search? p).map F := by
  suffices hfrom : ∀ i ≤ t.length, (ofOffset (crlf t) (crlfOffset t i)).search? p' =
      ((ofOffset t i).search? p).map F from hfrom 0 (Nat.zero_le _)
  intro i hi
  induction hlen : t.length - i using Nat.strongRecOn generalizing i with
  | ind n ih =>
    subst hlen
    rcases Nat.eq_or_lt_of_le hi with rfl | hlt
    · rw [crlfOffset_length, search?_end, search?_end, ← crlfOffset_length, hat _ hi]
    · have hnext := ih (t.length - (i + 1)) (by omega) (i + 1) hlt rfl
      have hsucc := crlfOffset_succ (List.getElem?_eq_getElem hlt)
      have hlt' : crlfOffset t i < (crlf t).length := by
        rw [← crlfOffset_length, crlfOffset_lt_iff]
        exact hlt
      rw [search?_step _ hlt, search?_step _ hlt', hat i hi, Option.map_or, ← hnext]
      by_cases hb : t[i] = newline
      · have hget : t[i]? = some newline := by rw [List.getElem?_eq_getElem hlt, hb]
        have hle' := crlfOffset_le (t := t) (i := i + 1) hlt
        rw [if_pos hb] at hsucc
        rw [search?_step _ (by omega : crlfOffset t i + 1 < (crlf t).length), hinside i hget,
          Option.none_or, hsucc]
      · rw [hsucc, if_neg hb, Nat.add_zero]

/-- **So does a search for all.** -/
theorem searchAll_crlf {p : Cursor → Option (α × Nat)} {p' : Cursor → Option (β × Nat)} {F : α → β}
    (hat : ∀ i ≤ t.length, p' (ofOffset (crlf t) (crlfOffset t i)) =
      (p (ofOffset t i)).map fun (a, n) => (F a, crlfOffset (t.drop i) n))
    (hpos : ∀ i ≤ t.length, ∀ a n, p (ofOffset t i) = some (a, n) → 0 < n)
    (hinside : ∀ i, t[i]? = some newline → p' (ofOffset (crlf t) (crlfOffset t i + 1)) = none) :
    (start (crlf t)).searchAll p' = ((start t).searchAll p).map F := by
  suffices hfrom : ∀ i ≤ t.length, (ofOffset (crlf t) (crlfOffset t i)).searchAll p' =
      ((ofOffset t i).searchAll p).map F from hfrom 0 (Nat.zero_le _)
  intro i hi
  induction hlen : t.length - i using Nat.strongRecOn generalizing i with
  | ind n ih =>
    subst hlen
    have hhere := hat i hi
    rcases Nat.eq_or_lt_of_le hi with rfl | hlt
    · rw [crlfOffset_length] at hhere ⊢
      rw [searchAll_end, searchAll_end, hhere]
      rcases p (ofOffset t t.length) with - | ⟨a, n⟩ <;> rfl
    · have hlt' : crlfOffset t i < (crlf t).length := by
        rw [← crlfOffset_length, crlfOffset_lt_iff]
        exact hlt
      rw [searchAll_step _ hlt, searchAll_step _ hlt', hhere]
      rcases hp : p (ofOffset t i) with - | ⟨a, n⟩
      · -- the search goes on behind the byte, or behind both bytes of the line end
        have hnext := ih (t.length - (i + 1)) (by omega) (i + 1) hlt rfl
        have hsucc := crlfOffset_succ (List.getElem?_eq_getElem hlt)
        rw [Option.map_none, ← hnext]
        by_cases hb : t[i] = newline
        · have hget : t[i]? = some newline := by rw [List.getElem?_eq_getElem hlt, hb]
          have hle' := crlfOffset_le (t := t) (i := i + 1) hlt
          rw [if_pos hb] at hsucc
          rw [searchAll_step _ (by omega : crlfOffset t i + 1 < (crlf t).length), hinside i hget,
            hsucc]
        · rw [hsucc, if_neg hb, Nat.add_zero]
      · have hn := hpos i hi a n hp
        have hnext := ih (t.length - min (i + n) t.length) (by omega) (min (i + n) t.length)
          (Nat.min_le_right _ _) rfl
        have hn' : 0 < crlfOffset (t.drop i) n := by
          rw [← crlfOffset_zero (t.drop i), crlfOffset_lt_iff]
          exact hn
        rw [ofOffset_crlf_min, ofOffset_min, crlfOffset_add] at hnext
        simp only [Option.map_some, List.map_cons, Nat.max_eq_right hn, Nat.max_eq_right hn', hnext]

end

end Cursor
end PascalSurvey
