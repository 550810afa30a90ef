/-
PascalSurvey/Proofs/Sql/Concatenation.lean

Sums and their terms.  A part of a sum is `Nested`: its literals are closed, its brackets match, and
a separator in it stands in a literal or in brackets.  Such a part goes in front of the first item
of what is split behind it (`Nested.split`), so splitting undoes the joining of such parts
(`splitTopLevel_join`).

Joining undoes the splitting of any text.  Main result: `splitConcatenation_join`, which says both,
and that the plus signs which a split takes away are those of the top level.
-/
import PascalSurvey.Proofs.Source.TopLevel
import PascalSurvey.Proofs.Sql.Constant

namespace PascalSurvey.Sql

open Ascii Source

/-! ### Parts -/

/-- A text that closes the `d` brackets which are open before it, and every bracket that it opens,
and no more.  Its literals are closed, and no separator stands outside literals and brackets. -/
inductive Nested (sep : UInt8) : Nat → Text → Prop
  | nil : Nested sep 0 []
  | literal {d : Nat} {s r : Text} : newline ∉ s → Nested sep d r → Nested sep d (constant s ++ r)
  | opening {d : Nat} {b : UInt8} {r : Text} :
      b = lparen ∨ b = lbracket → Nested sep (d + 1) r → Nested sep d (b :: r)
  | closing {d : Nat} {b : UInt8} {r : Text} :
      b = rparen ∨ b = rbracket → Nested sep d r → Nested sep (d + 1) (b :: r)
  | plain {d : Nat} {b : UInt8} {r : Text} : b ≠ quote → bracketStep b = 0 → ¬(b = sep ∧ d = 0) →
      Nested sep d r → Nested sep d (b :: r)

section
variable {sep : UInt8}

/-- **A part is not split**, whatever stands behind it, and behind it no bracket is open. -/
theorem Nested.split {d : Nat} {x : Text} (h : Nested sep d x) (z : Text) :
    splitTopLevelFrom d sep (x ++ z) = onFirst x (splitTopLevelFrom 0 sep z) := by
  induction h with
  | nil => exact (onFirst_nil (splitTopLevelFrom_ne_nil 0 sep z)).symm
  | @literal d s r hs _ ih =>
    rw [List.append_assoc, onFirst_constant (keepsLiterals_splitTopLevelFrom d sep) hs, ih,
      onFirst_onFirst]
  | @opening d b r hb _ ih =>
    have hstep : b ≠ quote ∧ bracketStep b = 1 := by
      rcases hb with rfl | rfl <;> decide
    rw [List.cons_append, splitTopLevelFrom_byte hstep.1 (by simp [hstep.2]), hstep.2,
      show (d : Int) + 1 = (d + 1 : Nat) from rfl, ih, onFirst_onFirst, List.singleton_append]
  | @closing d b r hb _ ih =>
    have hstep : b ≠ quote ∧ bracketStep b = -1 := by
      rcases hb with rfl | rfl <;> decide
    rw [List.cons_append, splitTopLevelFrom_byte hstep.1 (by simp [hstep.2]), hstep.2,
      show ((d + 1 : Nat) : Int) + -1 = d by omega, ih, onFirst_onFirst, List.singleton_append]
  | @plain d b r hquote hstep hsep _ ih =>
    have hsep' : ¬(b = sep ∧ bracketStep b = 0 ∧ (d : Int) = 0) := by
      rintro ⟨hb, -, hd⟩
      exact hsep ⟨hb, by omega⟩
    rw [List.cons_append, splitTopLevelFrom_byte hquote hsep', hstep, Int.add_zero, ih,
      onFirst_onFirst, List.singleton_append]

/-- **Splitting undoes joining**, if no part would be split itself. -/
theorem splitTopLevel_join (hquote : sep ≠ quote) (hstep : bracketStep sep = 0) {ps : List Text}
    (hne : ps ≠ []) (h : ∀ p ∈ ps, Nested sep 0 p) :
    splitTopLevel sep (Text.join [sep] ps) = ps := by
  unfold splitTopLevel
  induction ps with
  | nil => exact absurd rfl hne
  | cons p ps ih =>
    have hp := (h p List.mem_cons_self).split
    cases ps with
    | nil =>
      have hlast := hp []
      rw [List.append_nil, splitTopLevelFrom] at hlast
      rw [Text.join, List.intercalate_singleton]
      exact hlast.trans (by rw [onFirst_cons, List.append_nil])
    | cons q qs =>
      have hrest := ih (List.cons_ne_nil q qs) fun r hr => h r (List.mem_cons_of_mem p hr)
      have hcons := hp (sep :: Text.join [sep] (q :: qs))
      rw [splitTopLevelFrom_sep hquote hstep, hrest, onFirst_cons, List.append_nil] at hcons
      rw [Text.join, List.intercalate_cons_cons, List.append_assoc, List.singleton_append]
      exact hcons

end

/-! ### Sums -/

/-- **Main.** Splitting a sum and joining its terms undo each other.  Terms that are joined by plus
signs come back, if each has closed literals, matching brackets and no plus sign outside of both.
Any text comes back from the terms that it is split into, and the plus signs between these are those
of the text that stand outside literals and at depth zero. -/
theorem splitConcatenation_join :
    (∀ ps : List Text, ps ≠ [] → (∀ p ∈ ps, Nested plus 0 p) →
      splitConcatenation (Text.join [plus] ps) = ps) ∧
    ∀ t, Text.join [plus] (splitConcatenation t) = t ∧
      ∀ i, IsCut plus t i ↔ t[i]? = some plus ∧ BracketScan t i 0 := by
  have hquote : plus ≠ quote := by decide
  have hstep : bracketStep plus = 0 := by decide
  refine ⟨fun ps hne h => splitTopLevel_join hquote hstep hne h, fun t => ⟨?_, fun i => ?_⟩⟩
  · exact join_splitTopLevelFrom 0 plus t
  · exact isCut_iff hquote hstep

/-- Two literals with a plus sign between them, and brackets of both kinds around others. -/
def nestedTerms : List Text := ["'a+b'", "'it''s'", "F(x+[1+2])"]

theorem splitConcatenation_nestedTerms :
    (∀ p ∈ nestedTerms, Nested plus 0 p) ∧
      splitConcatenation "'a+b'+'it''s'+F(x+[1+2])" = nestedTerms ∧
      BracketScan "'a+b'+'it''s'+F(x+[1+2])" 5 0 ∧ IsCut plus "'a+b'+'it''s'+F(x+[1+2])" 5 := by
  have hliteral {s p : Text} (hs : newline ∉ s) (hp : constant s ++ [] = p) : Nested plus 0 p :=
    hp ▸ .literal hs .nil
  have hplain {d : Nat} {b : UInt8} {r : Text}
      (hb : b ≠ quote ∧ bracketStep b = 0 ∧ ¬(b = plus ∧ d = 0)) (h : Nested plus d r) :
      Nested plus d (b :: r) := .plain hb.1 hb.2.1 hb.2.2 h
  have hcall : Nested plus 0 "F(x+[1+2])" := by
    refine hplain (by decide) (.opening (.inl rfl) (hplain (by decide) (hplain (by decide) ?_)))
    refine .opening (.inr rfl) (hplain (by decide) (hplain (by decide) (hplain (by decide) ?_)))
    exact .closing (.inr rfl) (.closing (.inl rfl) .nil)
  have hterms : ∀ p ∈ nestedTerms, Nested plus 0 p := by
    intro p hp
    rcases List.mem_cons.mp hp with rfl | hp
    · exact hliteral (s := "a+b") (by decide) (by decide)
    rcases List.mem_cons.mp hp with rfl | hp
    · exact hliteral (s := "it's") (by decide) (by decide)
    · rw [List.mem_singleton.mp hp]
      exact hcall
  have hscan : BracketScan "'a+b'+'it''s'+F(x+[1+2])" 5 0 :=
    BracketScan.start.literal (by decide)
  obtain ⟨hjoin, hsplit⟩ := splitConcatenation_join
  exact ⟨hterms, hjoin nestedTerms (by decide) hterms, hscan,
    ((hsplit _).2 5).mpr ⟨by decide, hscan⟩⟩

end PascalSurvey.Sql
