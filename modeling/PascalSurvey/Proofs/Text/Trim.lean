/-
PascalSurvey/Proofs/Text/Trim.lean

What trimming takes off the end of a text.  A character of several bytes has no byte below
0x80 (`Utf8.le_of_mem_char`), so the only bytes below 0x80 that are trimmed off are white
space themselves (`Text.trimEnd_append`), whatever stands before them.  At either end a byte
below 0x80 that is no white space stops the trimming (`trimStart_ink`, `trimEnd_ink`).
-/
import PascalSurvey.Proofs.Text.Boundary
import PascalSurvey.Proofs.Text.Bytes

namespace PascalSurvey

/-- All bytes of a character of several bytes are beyond 0x80. -/
theorem Utf8.le_of_mem_char {a b : UInt8} {r : Text} {c : Nat} (h : code? (a :: r) = some c)
    (hr : r ≠ []) (hb : b ∈ a :: r) : 0x80 ≤ b := by
  obtain ⟨⟨code, n⟩, hhead, h⟩ := Option.bind_eq_some_iff.mp h
  have hn : n = r.length + 1 := by
    dsimp only at h
    split at h
    · next hn => simpa using hn
    · cases h
  rw [head?] at hhead
  rcases hread : readHead a r with ⟨code', more⟩ | more
  · rw [hread] at hhead
    obtain ⟨-, rfl⟩ := Prod.mk.inj (Option.some.inj hhead)
    obtain ⟨-, -, hone, hmore⟩ := readHead_scalar hread
    obtain rfl : more = r.length := by omega
    rw [List.take_length] at hmore
    rcases List.mem_cons.mp hb with rfl | hb
    · -- a first byte below 0x80 would be the whole character
      apply UInt8.not_lt.mp
      intro hascii
      exact hr (List.length_eq_zero_iff.mp (hone hascii))
    · exact hmore b hb
  · rw [hread] at hhead
    cases hhead

namespace Text

theorem dropBlanksBack_append (u : Text) :
    ∃ v, u = v ++ dropBlanksBack u ∧ ∀ b ∈ v, b < 0x80 → isBlankChar b.toNat = true := by
  -- the white space of several bytes that stands in reverse at the head
  have several {a b : UInt8} {r : Text} (h : (Utf8.code? (b :: r)).any isBlankChar = true)
      (hr : r ≠ []) (ha : a ∈ b :: r) (hascii : a < 0x80) : isBlankChar a.toNat = true := by
    obtain ⟨c, hc, -⟩ := (Option.any_eq_true _ _).mp h
    exact absurd hascii (UInt8.not_lt.mpr (Utf8.le_of_mem_char hc hr ha))
  fun_induction dropBlanksBack u with
  | case2 a before hascii hblank ih =>
    obtain ⟨v, hv, hall⟩ := ih
    refine ⟨a :: v, by rw [List.cons_append, ← hv], fun b hb hlt => ?_⟩
    rcases List.mem_cons.mp hb with rfl | hb
    · exact hblank
    · exact hall b hb hlt
  | case4 a hascii b before hblank ih =>
    obtain ⟨v, hv, hall⟩ := ih
    refine ⟨a :: b :: v, by rw [List.cons_append, List.cons_append, ← hv], fun x hx hlt => ?_⟩
    simp only [List.mem_cons] at hx
    rcases hx with rfl | rfl | hx
    · exact several hblank (by simp) (by simp) hlt
    · exact several hblank (by simp) (by simp) hlt
    · exact hall x hx hlt
  | case5 a hascii b _ c before hblank ih =>
    obtain ⟨v, hv, hall⟩ := ih
    refine ⟨a :: b :: c :: v, by rw [List.cons_append, List.cons_append, List.cons_append, ← hv],
      fun x hx hlt => ?_⟩
    simp only [List.mem_cons] at hx
    rcases hx with rfl | rfl | rfl | hx
    · exact several hblank (by simp) (by simp) hlt
    · exact several hblank (by simp) (by simp) hlt
    · exact several hblank (by simp) (by simp) hlt
    · exact hall x hx hlt
  | _ => exact ⟨[], rfl, by simp⟩

/-- Of the bytes below 0x80, trimming takes off only white space. -/
theorem trimEnd_append (t : Text) :
    ∃ v, t = trimEnd t ++ v ∧ ∀ b ∈ v, b < 0x80 → isBlankChar b.toNat = true := by
  obtain ⟨v, hv, hall⟩ := dropBlanksBack_append t.reverse
  refine ⟨v.reverse, ?_, fun b hb => hall b (List.mem_reverse.mp hb)⟩
  rw [trimEnd, ← List.reverse_append, ← hv, List.reverse_reverse]

/-! ### Texts with and without white space at the ends -/

section
variable {b : UInt8} (hascii : b < 0x80)
include hascii

/-- White space at the head counts with what follows it. -/
theorem trimStart_blank (hblank : isBlankChar b.toNat = true) (r : Text) :
    trimStart (b :: r) = trimStart r := by
  have hrun : blankRun (b :: r) = blankRun r + 1 := by
    rw [blankRun, Utf8.run, Utf8.readHead_ascii hascii]
    simp [hblank, blankRun, Nat.add_comm]
  rw [trimStart, hrun, List.drop_succ_cons, trimStart]

theorem trimStart_ink (hink : isBlankChar b.toNat = false) (r : Text) :
    trimStart (b :: r) = b :: r := by
  have hrun : blankRun (b :: r) = 0 := by
    rw [blankRun, Utf8.run, Utf8.readHead_ascii hascii]
    simp [hink]
  rw [trimStart, hrun, List.drop_zero]

theorem trimEnd_blank (hblank : isBlankChar b.toNat = true) (t : Text) :
    trimEnd (t ++ [b]) = trimEnd t := by
  have hdrop : dropBlanksBack (b :: t.reverse) = dropBlanksBack t.reverse := by
    rw [dropBlanksBack.eq_def]
    simp [hascii, hblank]
  rw [trimEnd, List.reverse_concat, hdrop, trimEnd]

theorem trimEnd_ink (hink : isBlankChar b.toNat = false) (t : Text) :
    trimEnd (t ++ [b]) = t ++ [b] := by
  have hdrop : dropBlanksBack (b :: t.reverse) = b :: t.reverse := by
    rw [dropBlanksBack.eq_def]
    simp [hascii, hink]
  rw [trimEnd, List.reverse_concat, hdrop, List.reverse_cons, List.reverse_reverse]

end

end Text
end PascalSurvey
