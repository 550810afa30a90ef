/-
PascalSurvey/Proofs/Text/Decimal.lean

Numbers in decimal digits.  The last digit of a number is its remainder, and the digits before it
are those of the quotient (`ofNat_eq`), so a number is written by digits that have it as their
value (`isDecimal_ofNat`).
-/
import PascalSurvey.Text.Basic

namespace PascalSurvey.Text

open Ascii

/-- A text is a run of decimal digits that writes a number. -/
structure IsDecimal (t : Text) (n : Nat) : Prop where
  ne_nil : t ≠ []
  isDigit : ∀ b ∈ t, isDigit b = true
  value : digitsValue 10 t = n

theorem digitsValue_concat (base : Nat) (t : Text) (b : UInt8) :
    digitsValue base (t ++ [b]) = digitsValue base t * base + hexValue b :=
  List.foldl_append

/-- The digit of a number below ten. -/
theorem digit_spec : ∀ d < 10, Ascii.isDigit d.digitChar.toUInt8 = true ∧
    hexValue d.digitChar.toUInt8 = d := by
  decide

theorem ofNat_eq (n : Nat) : ofNat n =
    (if n < 10 then [] else ofNat (n / 10)) ++ [(n % 10).digitChar.toUInt8] := by
  rw [ofNat, Nat.toDigits_eq_if (by decide)]
  split
  · next h =>
    rw [Nat.mod_eq_of_lt h]
    rfl
  · rw [List.map_append]
    rfl

/-- **A number is written in decimal digits.** -/
theorem isDecimal_ofNat (n : Nat) : IsDecimal (ofNat n) n := by
  induction n using Nat.strongRecOn with
  | ind n ih =>
    obtain ⟨hdigit, hvalue⟩ := digit_spec (n % 10) (Nat.mod_lt n (by decide))
    rw [ofNat_eq]
    -- the number is a digit itself, or its last digit stands behind those of the quotient
    split
    · next h =>
      rw [Nat.mod_eq_of_lt h] at hdigit hvalue ⊢
      exact ⟨List.cons_ne_nil _ _, by simpa using hdigit, by simpa [digitsValue] using hvalue⟩
    · next h =>
      obtain ⟨-, hdigits, hquotient⟩ := ih (n / 10) (by omega)
      refine ⟨by simp, ?_, ?_⟩
      · rw [List.forall_mem_append]
        exact ⟨hdigits, by simpa using hdigit⟩
      · rw [digitsValue_concat, hquotient, hvalue]
        omega

end PascalSurvey.Text
