/-
PascalSurvey/Proofs/Text/Valid.lean

Valid texts.  A text is valid when it is a sequence of whole characters, of whatever class
(`isValid_iff_chars`).  Such texts are cut and put together where a character begins
(`Chars.left`, `Chars.append`), so a text stays valid when parts of it between ASCII bytes are
replaced.  Decoding leaves a valid text as it is (`lossy_of_isValid`), and decodes what stands in
front of an ASCII byte and what stands behind it each by itself (`lossy_separator`).
-/
import PascalSurvey.Proofs.Text.Chars

namespace PascalSurvey.Utf8

section
variable {p q : Nat → Bool} {x y t : Text}

theorem Chars.append (hx : Chars p x) (hy : Chars p y) : Chars p (x ++ y) := by
  induction hx with
  | nil => exact hy
  | cons hread hcode _ ih =>
    rw [List.cons_append, List.append_assoc]
    exact .cons hread hcode ih

/-- What stands before a byte that begins a character is made of whole characters as well. -/
theorem Chars.left (h : Chars p (x ++ y)) (hy : y.head?.any isContinuation = false) :
    Chars p x := by
  generalize hxy : x ++ y = t at h
  induction h generalizing x with
  | nil =>
    rw [(List.append_eq_nil_iff.mp hxy).1]
    exact .nil
  | @cons a z t code hread hcode _ ih =>
    cases x with
    | nil => exact .nil
    | cons b x =>
      rw [List.cons_append] at hxy
      obtain ⟨rfl, hrest⟩ := List.cons.inj hxy
      rcases List.append_eq_append_iff.mp hrest with ⟨u, rfl, rfl⟩ | ⟨u, rfl, rfl⟩
      · -- the cut cannot be inside the first character
        cases u with
        | nil =>
          rw [List.append_nil] at hread
          have := Chars.cons hread hcode .nil
          rwa [List.append_nil] at this
        | cons c u =>
          have hmem : c ∈ (x ++ c :: u).take (x ++ c :: u).length := by
            rw [List.take_length]
            exact List.mem_append_right _ List.mem_cons_self
          rw [List.cons_append, List.head?_cons, Option.any_some,
            readHead_continues hread c hmem] at hy
          cases hy
      · exact .cons hread hcode (ih rfl)

instance (p : Nat → Bool) (t : Text) : Decidable (Chars p t) := decidable_of_iff' _ chars_iff

/-! ### Validity -/

/-- **A valid text is one of whole characters.** -/
theorem isValid_iff_chars : isValid t = true ↔ Chars (fun _ => true) t := by
  constructor
  · intro h
    fun_induction isValid t with
    | case1 => exact .nil
    | case2 a r code more hread ih =>
      have := Chars.cons (readHead_own hread) rfl (ih h)
      rwa [List.take_append_drop] at this
    | case3 => cases h
  · intro h
    induction h with
    | nil => rw [isValid]
    | @cons a x t code hread _ _ ih =>
      rw [isValid, readHead_append hread]
      simpa only [List.drop_left'] using ih

theorem Chars.isValid (h : Chars p t) : isValid t = true :=
  isValid_iff_chars.mpr (h.mono fun _ _ => rfl)

/-- Decoding replaces nothing in a text of whole characters. -/
theorem Chars.lossy_eq (h : Chars p t) : lossy t = t := by
  induction h with
  | nil => rw [lossy]
  | @cons a x t code hread _ _ ih =>
    rw [lossy, readHead_append hread]
    simp only [List.take_left', List.drop_left', ih, List.cons_append]

/-- Nor in ASCII bytes, whatever stands behind them. -/
theorem lossy_append (h : ∀ b ∈ t, b < 0x80) (r : Text) : lossy (t ++ r) = t ++ lossy r := by
  induction t with
  | nil => rfl
  | cons b t ih =>
    rw [List.cons_append, lossy, readHead_ascii (h b List.mem_cons_self)]
    simp only [List.take_zero, List.drop_zero, List.nil_append,
      ih fun c hc => h c (List.mem_cons_of_mem _ hc), List.cons_append]

theorem lossy_of_isValid (h : Utf8.isValid t = true) : lossy t = t :=
  (isValid_iff_chars.mp h).lossy_eq

/-- Decoding makes no ASCII bytes. -/
theorem mem_of_mem_lossy {b : UInt8} (hb : b < 0x80) (h : b ∈ lossy t) : b ∈ t := by
  fun_induction lossy t with
  | case1 => exact h
  | case2 a r code more hread ih =>
    rcases List.mem_append.mp h with h | h
    · rw [← List.take_append_drop more r, ← List.cons_append]
      exact List.mem_append_left _ h
    · exact List.mem_cons_of_mem a (List.mem_of_mem_drop (ih h))
  | case3 a r more hread ih =>
    rcases List.mem_append.mp h with h | h
    · have hhigh : replacement.all (fun c => !decide (c < 0x80)) = true := by decide
      simpa [hb] using List.all_eq_true.mp hhigh b h
    · exact List.mem_cons_of_mem a (List.mem_of_mem_drop (ih h))

/-- Nothing is decoded across an ASCII byte. -/
theorem lossy_separator {c : UInt8} (hc : c < 0x80) (x y : Text) :
    lossy (x ++ c :: y) = lossy x ++ c :: lossy y := by
  induction hlen : x.length using Nat.strongRecOn generalizing x with
  | ind n ih =>
    subst hlen
    cases x with
    | nil =>
      rw [lossy]
      exact lossy_append (t := [c]) (by simpa using hc) y
    | cons a x =>
      have hrest (more : Nat) := ih (x.drop more).length
        (by rw [List.length_drop, List.length_cons]; omega) (x.drop more) rfl
      rw [List.cons_append, lossy, lossy, readHead_separator hc]
      rcases hread : readHead a x with ⟨code, more⟩ | more
      · have hle := (readHead_scalar hread).1
        dsimp only
        rw [List.drop_append_of_le_length hle, List.take_append_of_le_length hle, hrest]
        simp
      · have hle := readHead_broken hread
        dsimp only
        rw [List.drop_append_of_le_length hle, hrest, List.append_assoc]

end

end PascalSurvey.Utf8
