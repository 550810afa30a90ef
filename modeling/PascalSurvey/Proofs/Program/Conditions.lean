/-
PascalSurvey/Proofs/Program/Conditions.lean

Deleting the directives of conditional compilation.  A directive is a comment, and what stands in it
decides alone that it is one (`Directive`).  So a text that is `Tidy`, where no directive begins
inside another comment or a literal, all literals are closed, and nothing joins where a directive
stands, loses by the deletion just the pieces that are directives (`delete_eq`), one comment after
the other.

Main result: in such a program the `uses` clause is read as it is with the directives blank
(`uses_eq_ofProgram`).  Where neighbours join, it is not (`uses_glued`).
-/
import PascalSurvey.Outline.Basic
import PascalSurvey.Program
import PascalSurvey.Proofs.Outline.Uses

namespace PascalSurvey.Program

open Ascii Source

/-! ### Directives -/

/-- A reader of directives: they are comments, and it looks at nothing behind them. -/
structure Directive (part? : Text → Option Nat) : Prop where
  region : ∀ {t n}, part? t = some n → ∃ kind, kind ≠ .literal ∧ regionAt? t = some (kind, n)
  own : ∀ {t n}, part? t = some n → ∀ y, part? (t.take n ++ y) = some n

theorem isLower_of_mem_conditionWords {word : Text} (h : word ∈ conditionWords) :
    ∀ c ∈ word, isLower c = true := by
  have hall : conditionWords.all (fun w => w.all isLower) = true := rfl
  exact List.all_eq_true.mp (List.all_eq_true.mp hall word h)

theorem conditionWord?_spec {t : Text} {n : Nat} (h : conditionWord? t = some n) :
    n ≤ t.length ∧ ∀ b ∈ t.take n, isLetter b = true ∨ 0x80 ≤ b := by
  obtain ⟨word, hmem, hword⟩ := List.exists_of_findSome?_eq_some h
  obtain ⟨m, hm, hn⟩ := Option.bind_eq_some_iff.mp hword
  split at hn
  · cases hn
  · obtain rfl := Option.some.inj hn
    exact ⟨Text.matchFold?_le hm, fun b hb =>
      Text.mem_take_matchFold? hm (isLower_of_mem_conditionWords hmem) hb⟩

/-- What stands behind a separator does not matter to the word. -/
theorem conditionWord?_separator {c : UInt8} (hc : isSeparator c = true) (x y : Text) :
    conditionWord? (x ++ c :: y) = conditionWord? x := by
  have hwords (ws : List Text) (h : ∀ w ∈ ws, w ∈ conditionWords) :
      ws.findSome? (fun w => Text.matchWord? w (x ++ c :: y)) =
        ws.findSome? fun w => Text.matchWord? w x := by
    induction ws with
    | nil => rfl
    | cons w ws ih =>
      have hw := isLower_of_mem_conditionWords (h w List.mem_cons_self)
      rw [List.findSome?_cons, List.findSome?_cons, Text.matchWord?_separator hc hw,
        ih fun v hv => h v (List.mem_cons_of_mem _ hv)]
  exact hwords conditionWords fun _ h => h

/-- A condition between two marks, of which `find?` finds the second one. -/
def condition? (opening close : Text) (find? : Text → Option Nat) (t : Text) : Option Nat := do
  let r ← Text.after? opening t
  let n ← conditionWord? r
  let m ← find? (r.drop n)
  some (opening.length + n + m + close.length)

theorem braceCondition?_eq (t : Text) :
    braceCondition? t = condition? [lbrace, dollar] [rbrace] (Text.find? rbrace) t := rfl

theorem starCondition?_eq (t : Text) :
    starCondition? t = condition? [lparen, asterisk, dollar] [asterisk, rparen] findStarParen? t := rfl

section
variable {opening close : Text} {find? : Text → Option Nat}
  (hclose : ∃ c r, close = c :: r ∧ isSeparator c = true)
  (hfind : ∀ {t m}, find? t = some m →
    ∃ u z, t = u ++ close ++ z ∧ m = u.length ∧ ∀ y, find? (u ++ close ++ y) = some m)
include hclose hfind

/-- The form of a condition, and that it is one whatever stands behind it. -/
theorem exists_of_condition? {t : Text} {n : Nat} (h : condition? opening close find? t = some n) :
    ∃ w u z, t = opening ++ (w ++ (u ++ close ++ z)) ∧
      n = (opening ++ (w ++ (u ++ close))).length ∧ (∀ b ∈ w, isLetter b = true ∨ 0x80 ≤ b) ∧
      find? (u ++ close ++ z) = some u.length ∧
      ∀ y, condition? opening close find? (opening ++ (w ++ (u ++ close ++ y))) = some n := by
  obtain ⟨r, hr, h⟩ := Option.bind_eq_some_iff.mp h
  obtain ⟨k, hk, h⟩ := Option.bind_eq_some_iff.mp h
  obtain ⟨m, hm, h⟩ := Option.bind_eq_some_iff.mp h
  obtain rfl := Option.some.inj h
  obtain rfl := Text.after?_eq_some_iff.mp hr
  obtain ⟨hle, hletters⟩ := conditionWord?_spec hk
  obtain ⟨u, z, hu, rfl, hown⟩ := hfind hm
  have hlen : (r.take k).length = k := by rw [List.length_take, Nat.min_eq_left hle]
  have hsplit : r = r.take k ++ (u ++ close ++ z) := by rw [← hu, List.take_append_drop]
  refine ⟨r.take k, u, z, by rw [← hsplit], ?_, hletters, hown z, fun y => ?_⟩
  · simp only [List.length_append, hlen]
    omega
  · -- the word ends before the separator, so it is the same
    obtain ⟨c, q, rfl, hc⟩ := hclose
    have hword (y : Text) : conditionWord? (r.take k ++ (u ++ c :: q ++ y)) =
        conditionWord? (r.take k ++ u) := by
      rw [List.append_assoc u, ← List.append_assoc (r.take k), List.cons_append,
        conditionWord?_separator hc]
    rw [hsplit, hword, ← hword y] at hk
    rw [condition?, Text.after?_eq_some_iff.mpr rfl]
    simp only [Option.bind_eq_bind, Option.bind_some, hk, List.drop_left' hlen, hown]

theorem condition?_own {t : Text} {n : Nat} (h : condition? opening close find? t = some n)
    (y : Text) : condition? opening close find? (t.take n ++ y) = some n := by
  obtain ⟨w, u, z, rfl, hn, -, -, hown⟩ := exists_of_condition? hclose hfind h
  have htext : opening ++ (w ++ (u ++ close ++ z)) = opening ++ (w ++ (u ++ close)) ++ z := by
    simp only [List.append_assoc]
  have := hown y
  rw [htext, List.take_left' hn.symm]
  simpa only [List.append_assoc] using this

end

/-! ### Conditions in braces -/

theorem exists_of_find?_rbrace {t : Text} {m : Nat} (h : Text.find? rbrace t = some m) :
    ∃ u z, t = u ++ [rbrace] ++ z ∧ m = u.length ∧
      ∀ y, Text.find? rbrace (u ++ [rbrace] ++ y) = some m := by
  induction t generalizing m with
  | nil => cases h
  | cons b t ih =>
    rw [Text.find?, List.findIdx?_cons] at h
    split at h
    · next hb =>
      obtain rfl := Option.some.inj h
      obtain rfl := beq_iff_eq.mp hb
      exact ⟨[], t, rfl, rfl, fun y => rfl⟩
    · next hb =>
      obtain ⟨m, hm, rfl⟩ := Option.map_eq_some_iff.mp h
      obtain ⟨u, z, rfl, rfl, hown⟩ := ih hm
      refine ⟨b :: u, z, rfl, rfl, fun y => ?_⟩
      rw [List.cons_append, List.cons_append, Text.find?, List.findIdx?_cons, if_neg hb]
      exact congrArg (Option.map (· + 1)) (hown y)

theorem throughBrace_of_find? {t : Text} {m : Nat} (h : Text.find? rbrace t = some m) :
    throughBrace t = m + 1 := by
  induction t generalizing m with
  | nil => cases h
  | cons b t ih =>
    rw [Text.find?, List.findIdx?_cons] at h
    split at h
    · next hb =>
      obtain rfl := Option.some.inj h
      obtain rfl := beq_iff_eq.mp hb
      rfl
    · next hb =>
      obtain ⟨m, hm, rfl⟩ := Option.map_eq_some_iff.mp h
      rw [throughBrace, ih hm, Nat.add_comm 1]
      exact fun h => hb (beq_iff_eq.mpr h)

/-- What is neither a letter nor above the ASCII bytes is not in a condition word. -/
theorem not_mem_of_letters {w : Text} (hw : ∀ b ∈ w, isLetter b = true ∨ 0x80 ≤ b) {c : UInt8}
    (hletter : isLetter c = false) (hascii : ¬ 0x80 ≤ c) : c ∉ w := fun h =>
  (hw c h).elim (fun h => by rw [hletter] at h; cases h) hascii

theorem directive_braceCondition? : Directive braceCondition? where
  region {t n} h := by
    rw [braceCondition?_eq] at h
    obtain ⟨w, u, z, rfl, rfl, hw, hfind, -⟩ :=
      exists_of_condition? ⟨rbrace, [], rfl, rfl⟩ exists_of_find?_rbrace h
    have hmem : rbrace ∉ dollar :: w := by
      rw [List.mem_cons, not_or]
      exact ⟨by decide, not_mem_of_letters hw (by decide) (by decide)⟩
    refine ⟨.braceComment, nofun, ?_⟩
    show some (Region.braceComment, 1 + throughBrace (dollar :: w ++ (u ++ [rbrace] ++ z))) = _
    rw [throughBrace_skip hmem, throughBrace_of_find? hfind]
    simp only [List.length_append, List.length_cons, List.length_nil]
    congr 2
    omega
  own h y := condition?_own ⟨rbrace, [], rfl, rfl⟩ exists_of_find?_rbrace h y

/-! ### Conditions in parentheses with stars -/

theorem exists_of_findStarParen? {t : Text} {m : Nat} (h : findStarParen? t = some m) :
    ∃ u z, t = u ++ [asterisk, rparen] ++ z ∧ m = u.length ∧
      ∀ y, findStarParen? (u ++ [asterisk, rparen] ++ y) = some m := by
  fun_induction findStarParen? t generalizing m with
  | case1 => cases h
  | case2 r =>
    obtain rfl := Option.some.inj h
    exact ⟨[], r, rfl, rfl, fun y => rfl⟩
  | case3 b r hb ih =>
    obtain ⟨m, hm, rfl⟩ := Option.map_eq_some_iff.mp h
    obtain ⟨u, z, rfl, rfl, hown⟩ := ih hm
    refine ⟨b :: u, z, rfl, rfl, fun y => ?_⟩
    rw [List.cons_append, List.cons_append, findStarParen?, hown y, Option.map_some]
    -- the byte behind `b` is the one that stood there
    rintro r' hb' hr'
    cases u with
    | nil => cases hr'
    | cons c u =>
      rw [List.cons_append, List.cons_append, List.cons.injEq] at hr'
      exact hb (u ++ [asterisk, rparen] ++ z) hb' (by rw [← hr'.1]; rfl)

theorem throughStar_skip {x : Text} (hx : asterisk ∉ x) (t : Text) :
    throughStar (x ++ t) = x.length + throughStar t := by
  induction x with
  | nil => exact (Nat.zero_add _).symm
  | cons b x ih =>
    rw [List.mem_cons, not_or] at hx
    rw [List.cons_append, throughStar, ih hx.2, List.length_cons]
    · omega
    · exact fun _ h _ => hx.1 h.symm

theorem throughStar_of_findStarParen? {t : Text} {m : Nat} (h : findStarParen? t = some m) :
    throughStar t = m + 2 := by
  fun_induction findStarParen? t generalizing m with
  | case1 => cases h
  | case2 r =>
    obtain rfl := Option.some.inj h
    rfl
  | case3 b r hb ih =>
    obtain ⟨m, hm, rfl⟩ := Option.map_eq_some_iff.mp h
    rw [throughStar, ih hm]
    · omega
    · exact hb

theorem directive_starCondition? : Directive starCondition? where
  region {t n} h := by
    rw [starCondition?_eq] at h
    obtain ⟨w, u, z, rfl, rfl, hw, hfind, -⟩ :=
      exists_of_condition? ⟨asterisk, [rparen], rfl, rfl⟩ exists_of_findStarParen? h
    have hmem : asterisk ∉ dollar :: w := by
      rw [List.mem_cons, not_or]
      exact ⟨by decide, not_mem_of_letters hw (by decide) (by decide)⟩
    refine ⟨.starComment, nofun, ?_⟩
    show some (Region.starComment,
      2 + throughStar (dollar :: w ++ (u ++ [asterisk, rparen] ++ z))) = _
    rw [throughStar_skip hmem, throughStar_of_findStarParen? hfind]
    simp only [List.length_append, List.length_cons, List.length_nil]
    congr 2
    omega
  own h y := condition?_own ⟨asterisk, [rparen], rfl, rfl⟩ exists_of_findStarParen? h y

/-! ### What is deleted -/

/-- Whether a piece is none of the directives. -/
def keeps (part? : Text → Option Nat) : Piece → Bool
  | .code _ => true
  | .region _ s => part? s != some s.length

/-- A text from which the directives can be deleted without a trace. -/
structure Tidy (part? : Text → Option Nat) (t : Text) : Prop where
  /-- No directive begins inside a comment or a literal. -/
  whole : ∀ i < t.length, (part? (t.drop i)).isSome = true → Outside t i
  /-- No literal is left open. -/
  closed : ∀ p ∈ pieces t, p.isClosed = true
  /-- Nothing joins where a directive stands. -/
  apart : ∀ i, ∀ h : i < (pieces t).length, keeps part? (pieces t)[i] = false →
    Apart ((pieces t).take i).getLast? (((pieces t).drop (i + 1)).filter (keeps part?)).head?

instance (part? : Text → Option Nat) (t : Text) : Decidable (Tidy part? t) :=
  decidable_of_iff
    ((∀ i < t.length, (part? (t.drop i)).isSome = true → Outside t i) ∧
      (∀ p ∈ pieces t, p.isClosed = true) ∧
      ∀ i, ∀ h : i < (pieces t).length, keeps part? (pieces t)[i] = false →
        Apart ((pieces t).take i).getLast? (((pieces t).drop (i + 1)).filter (keeps part?)).head?)
    ⟨fun ⟨hwhole, hclosed, hapart⟩ => ⟨hwhole, hclosed, hapart⟩,
      fun h => ⟨h.whole, h.closed, h.apart⟩⟩

section
variable {part? : Text → Option Nat} {t : Text}

theorem delete_code {b : UInt8} {r : Text} (h : part? (b :: r) = none) :
    delete part? (b :: r) = b :: delete part? r := by
  rw [delete, h]

theorem delete_append {s r : Text} (h : ∀ i < s.length, part? ((s ++ r).drop i) = none) :
    delete part? (s ++ r) = s ++ delete part? r := by
  induction s with
  | nil => rfl
  | cons b s ih =>
    have hb : part? (b :: (s ++ r)) = none := h 0 (Nat.succ_pos _)
    rw [List.cons_append, delete_code hb, List.cons_append,
      ih fun i hi => h (i + 1) (Nat.succ_lt_succ hi)]

theorem delete_directive {n : Nat} (h : part? t = some n) (ht : t ≠ []) (hn : 0 < n) :
    delete part? t = delete part? (t.drop n) := by
  obtain ⟨b, r, rfl⟩ := List.exists_cons_of_ne_nil ht
  obtain ⟨n, rfl⟩ := Nat.exists_eq_add_of_lt hn
  rw [delete, h]
  dsimp only
  rw [Nat.zero_add, Nat.add_sub_cancel, List.drop_succ_cons]

/-- A region is left out if a directive begins where it begins. -/
theorem keeps_region (hpart : Directive part?) {kind : Region} {n : Nat}
    (h : regionAt? t = some (kind, n)) :
    keeps part? (.region kind (t.take n)) = false ↔ part? t = some n := by
  have hlen : (t.take n).length = n := by rw [List.length_take, Nat.min_eq_left (regionAt?_bounds h).2]
  rw [keeps, hlen, bne_eq_false_iff_eq]
  constructor
  · intro hown
    have := hpart.own hown (t.drop n)
    rwa [List.take_take, Nat.min_self, List.take_append_drop] at this
  · intro hown
    have := hpart.own hown []
    rwa [List.append_nil] at this

/-- **What is deleted are the pieces that are directives.** -/
theorem delete_eq (hpart : Directive part?)
    (hwhole : ∀ i < t.length, (part? (t.drop i)).isSome = true → Outside t i) :
    delete part? t = textOf ((pieces t).filter (keeps part?)) := by
  induction t using piecewise with
  | nil => rw [delete, pieces_nil, List.filter_nil, textOf, List.flatMap_nil]
  | code b r hr ih =>
    have hnone : part? (b :: r) = none := by
      rcases hn : part? (b :: r) with - | n
      · rfl
      · obtain ⟨kind, -, hregion⟩ := hpart.region hn
        rw [hr] at hregion
        cases hregion
    have hrest := ih fun i hi hsome =>
      (outside_succ_code hr).mp (hwhole (i + 1) (Nat.succ_lt_succ hi) hsome)
    rw [delete_code hnone, hrest, pieces_code hr, List.filter_cons_of_pos rfl]
    rfl
  | region t kind n hr ih =>
    obtain ⟨hpos, hle⟩ := regionAt?_bounds hr
    have hrest := ih fun i hi hsome => by
      rw [List.length_drop] at hi
      rw [List.drop_drop] at hsome
      rcases (outside_region hr).mp (hwhole (n + i) (by omega) hsome) with hzero | ⟨-, hout⟩
      · omega
      · rwa [Nat.add_sub_cancel_left] at hout
    have hkeeps := keeps_region hpart hr
    rw [pieces_region hr]
    rcases hn : part? t with - | m
    · -- nothing begins in the region, and it is no directive
      have hdelete : delete part? (t.take n ++ t.drop n) = t.take n ++ delete part? (t.drop n) := by
        refine delete_append fun i hi => ?_
        rw [List.take_append_drop]
        rw [List.length_take, Nat.min_eq_left hle] at hi
        rcases Nat.eq_zero_or_pos i with rfl | hipos
        · exact hn
        · rw [← Option.not_isSome_iff_eq_none]
          intro hsome
          rcases (outside_region hr).mp (hwhole i (by omega) hsome) with hzero | ⟨hge, -⟩ <;> omega
      rw [hn] at hkeeps
      rw [List.take_append_drop] at hdelete
      rw [hdelete, hrest, List.filter_cons_of_pos (by simpa using hkeeps)]
      rfl
    · obtain ⟨kind', -, hregion⟩ := hpart.region hn
      rw [hr] at hregion
      obtain ⟨rfl, rfl⟩ := Prod.mk.inj (Option.some.inj hregion)
      have hne : t ≠ [] := List.ne_nil_of_length_pos (by omega)
      rw [delete_directive hn hne hpos, hrest, List.filter_cons_of_neg (by simp [hkeeps.mpr hn])]

/-! ### The clause without the directives -/

/-- **The entries of a tidy text are the same without its directives.** -/
theorem ofProgram_delete (hpart : Directive part?) (h : Tidy part? t) :
    Outline.UsesEntry.ofProgram (delete part? t) = Outline.UsesEntry.ofProgram t := by
  have hcomment : ∀ p ∈ pieces t, keeps part? p = false →
      ∃ kind s, p = .region kind s ∧ kind ≠ .literal := by
    intro p hp hkeep
    rcases mem_pieces hp with ⟨b, r, rfl, -⟩ | ⟨kind, u, n, rfl, hr⟩
    · cases hkeep
    · obtain ⟨kind', hk, hregion⟩ := hpart.region ((keeps_region hpart hr).mp hkeep)
      rw [hr] at hregion
      obtain ⟨rfl, -⟩ := Prod.mk.inj (Option.some.inj hregion)
      exact ⟨kind, _, rfl, hk⟩
  have hapart : ∀ xs c ys, pieces t = xs ++ c :: ys → keeps part? c = false →
      Apart ([] ++ xs).getLast? (ys.filter (keeps part?)).head? := by
    intro xs c ys hsplit hkeep
    have hseam := h.apart xs.length
    simp only [hsplit, List.getElem_append_right (Nat.le_refl _), Nat.sub_self,
      List.getElem_cons_zero, List.take_left, List.drop_length_add_append, List.drop_succ_cons,
      List.drop_zero] at hseam
    exact hseam (by simp) hkeep
  have hremoves := removes_filter hcomment hapart
  rw [List.nil_append, List.nil_append] at hremoves
  have htext : textOf (pieces t) = t := flatMap_text_pieces t
  rw [delete_eq hpart h.whole, Outline.UsesEntry.ofProgram_reflTransGen hremoves (by rw [htext])
    h.closed, htext]

end

/-- **In a tidy program the `uses` clause is read as it is with the directives blank**, and so is
the interface's clause in the outline of a program that has no sections. -/
theorem uses_eq_ofProgram {t : Text} (hbrace : Tidy braceCondition? t)
    (hstar : Tidy starCondition? (delete braceCondition? t)) :
    uses t = Outline.UsesEntry.ofProgram t ∧
      (Outline.sections (overlay t) = (none, none) →
        ∀ file, (Outline.ofText t file).interfaceUses = uses t) := by
  have huses : uses t = Outline.UsesEntry.ofProgram t := by
    rw [uses, withoutConditions, ofProgram_delete directive_starCondition? hstar,
      ofProgram_delete directive_braceCondition? hbrace]
  refine ⟨huses, fun hsections file => ?_⟩
  rw [huses, Outline.UsesEntry.interfaceUses_eq_ofProgram hsections]

/-- Directives among the units of a clause, each of them behind a blank. -/
def tidyProgram : Text :=
  "program P;\nuses\n  A, \x7b$IFDEF D\x7d B in 'b.pas', (*$ENDIF*) C;\nbegin end."

theorem uses_tidyProgram :
    Tidy braceCondition? tidyProgram ∧ Tidy starCondition? (delete braceCondition? tidyProgram) ∧
      uses tidyProgram = [⟨"A", none⟩, ⟨"B", some "b.pas"⟩, ⟨"C", none⟩] ∧
      (Outline.ofText tidyProgram "P.dpr").interfaceUses = uses tidyProgram := by
  have hbrace : Tidy braceCondition? tidyProgram := by decide +kernel
  have hstar : Tidy starCondition? (delete braceCondition? tidyProgram) := by decide +kernel
  obtain ⟨huses, houtline⟩ := uses_eq_ofProgram hbrace hstar
  refine ⟨hbrace, hstar, ?_, houtline (by decide +kernel) "P.dpr"⟩
  rw [huses]
  decide +kernel

/-- Directives between the keyword and its first unit, and between two units. -/
def gluedProgram : Text := "program P; uses\x7b$IFDEF D\x7dA,\x7b$ENDIF\x7dB; begin end."

theorem uses_glued :
    withoutConditions gluedProgram = "program P; usesA,B; begin end." ∧
      uses gluedProgram = [] ∧
      Outline.UsesEntry.ofProgram gluedProgram = [⟨"A", none⟩, ⟨"B", none⟩] ∧
      Outline.sections (Source.overlay gluedProgram) = (none, none) ∧
      (Outline.ofText gluedProgram "P.dpr").interfaceUses = [⟨"A", none⟩, ⟨"B", none⟩] := by
  decide +kernel

end PascalSurvey.Program
