/-
PascalSurvey/Proofs/Text/Chars.lean

Texts of whole characters of one class.  `Chars p t` says that `t` is a sequence of characters
that all satisfy `p`, with one constructor for a character in front of such a text.  These are the
texts that a run of `p` takes as a whole (`chars_iff`), and the inductive form is what carries
the proofs: a character is read from its own bytes alone (`readHead_congr`), so a run over such a
text is the same whatever stands behind it (`Chars.run_append`).

A text of whole characters can be cut at every byte that begins one (`Chars.right`).
-/
import PascalSurvey.Proofs.Text.Trim

namespace PascalSurvey

namespace Utf8

/-- A text of whole characters that satisfy `p`. -/
inductive Chars (p : Nat → Bool) : Text → Prop
  | nil : Chars p []
  | cons {a : UInt8} {x t : Text} {code : Nat} : readHead a x = .scalar code x.length →
      p code = true → Chars p t → Chars p (a :: (x ++ t))

/-! ### One character -/

/-- Bytes that begin a text also begin another one. -/
theorem cons_of_take {b : UInt8} {r s : Text} {n : Nat}
    (h : s.take (n + 1) = (b :: r).take (n + 1)) : ∃ s', s = b :: s' ∧ s'.take n = r.take n := by
  cases s with
  | nil => cases h
  | cons c s =>
    obtain ⟨rfl, htake⟩ := List.cons.inj h
    exact ⟨s, rfl, htake⟩

/-- **A character is read from its own bytes**, whatever stands behind them. -/
theorem readHead_congr {a : UInt8} {r s : Text} {code more : Nat}
    (h : readHead a r = .scalar code more) (hs : s.take more = r.take more) :
    readHead a s = .scalar code more := by
  revert h
  fun_cases readHead a r with
  | case1 r hascii =>
    intro h
    rw [← h, readHead_ascii hascii]
  | case3 hascii hlow htwo b r hb =>
    intro h
    obtain ⟨-, rfl⟩ := Head.scalar.inj h
    obtain ⟨s, rfl, -⟩ := cons_of_take hs
    simp only [readHead, hascii, hlow, htwo, hb, if_true, if_false, h]
  | case6 hascii hlow htwo hthree b hb c r hc =>
    intro h
    obtain ⟨-, rfl⟩ := Head.scalar.inj h
    obtain ⟨s, rfl, hs₁⟩ := cons_of_take hs
    obtain ⟨s, rfl, -⟩ := cons_of_take hs₁
    simp only [readHead, hascii, hlow, htwo, hthree, hb, hc, if_true, if_false, h]
  | case11 hascii hlow htwo hthree hfour b hb c hc d r hd =>
    intro h
    obtain ⟨-, rfl⟩ := Head.scalar.inj h
    obtain ⟨s, rfl, hs₁⟩ := cons_of_take hs
    obtain ⟨s, rfl, hs₂⟩ := cons_of_take hs₁
    obtain ⟨s, rfl, -⟩ := cons_of_take hs₂
    simp only [readHead, hascii, hlow, htwo, hthree, hfour, hb, hc, hd, if_true, if_false, h]
  | _ =>
    intro h
    cases h

/-- So it is read with anything behind it. -/
theorem readHead_append {a : UInt8} {x : Text} {code : Nat}
    (h : readHead a x = .scalar code x.length) (t : Text) :
    readHead a (x ++ t) = .scalar code x.length :=
  readHead_congr h (by rw [List.take_left' rfl, List.take_length])

/-- And it is read without what stands behind it. -/
theorem readHead_own {a : UInt8} {r : Text} {code more : Nat}
    (h : readHead a r = .scalar code more) :
    readHead a (r.take more) = .scalar code (r.take more).length := by
  rw [List.length_take, Nat.min_eq_left (readHead_scalar h).1]
  exact readHead_congr h (by rw [List.take_take, Nat.min_self])

/-- What may follow the first byte of a character goes on with it. -/
theorem isContinuation_of_follows {a b : UInt8} (h : follows a b = true) :
    isContinuation b = true := by
  have hlo := le_of_follows h
  have hhi : (secondRange a).2 ≤ 0xBF := by
    unfold secondRange
    split
    · decide
    · split
      · decide
      · split
        · decide
        · split <;> decide
  simp only [follows, Bool.and_eq_true, decide_eq_true_eq] at h
  simp only [isContinuation, Bool.and_eq_true, decide_eq_true_eq]
  exact ⟨hlo, UInt8.le_trans h.2 hhi⟩

/-- Only bytes that go on with a character stand behind its first one. -/
theorem readHead_continues {a : UInt8} {r : Text} {code more : Nat}
    (h : readHead a r = .scalar code more) : ∀ b ∈ r.take more, isContinuation b = true := by
  revert h
  fun_cases readHead a r with
  | case1 =>
    intro h
    obtain ⟨-, rfl⟩ := Head.scalar.inj h
    simp
  | case3 _ _ _ b r hb =>
    intro h
    obtain ⟨-, rfl⟩ := Head.scalar.inj h
    simpa using hb
  | case6 _ _ _ _ b hb c r hc =>
    intro h
    obtain ⟨-, rfl⟩ := Head.scalar.inj h
    simpa using ⟨isContinuation_of_follows hb, hc⟩
  | case11 _ _ _ _ _ b hb c hc d r hd =>
    intro h
    obtain ⟨-, rfl⟩ := Head.scalar.inj h
    simpa using ⟨isContinuation_of_follows hb, hc, hd⟩
  | _ =>
    intro h
    cases h

/-! ### Runs -/

section
variable {p q : Nat → Bool} {t : Text}

/-- A character of the class in front of a text goes with the run. -/
theorem run_cons {a : UInt8} {x : Text} {code : Nat} (hread : readHead a x = .scalar code x.length)
    (p : Nat → Bool) (t : Text) :
    run p (a :: (x ++ t)) = if p code then x.length + 1 + run p t else 0 := by
  rw [run, readHead_append hread]
  simp only [List.drop_left']

/-- A run takes whole characters. -/
theorem chars_take_run (p : Nat → Bool) (t : Text) : Chars p (t.take (run p t)) := by
  fun_induction run p t with
  | case1 => exact .nil
  | case2 a r code more hread hp ih =>
    rw [Nat.add_right_comm, List.take_succ_cons, List.take_add]
    exact .cons (readHead_own hread) hp ih
  | case3 => exact .nil
  | case4 => exact .nil

/-- The texts of whole characters of a class are those that a run takes as a whole. -/
theorem chars_iff : Chars p t ↔ run p t = t.length := by
  constructor
  · intro h
    induction h with
    | nil => rw [run, List.length_nil]
    | cons hread hp _ ih =>
      rw [run_cons hread, if_pos hp, ih, List.length_cons, List.length_append]
      omega
  · intro h
    have htake := chars_take_run p t
    rwa [h, List.take_length] at htake

/-- ASCII bytes are characters of their own. -/
theorem chars_ascii (h : ∀ b ∈ t, b < 0x80 ∧ p b.toNat = true) : Chars p t := by
  induction t with
  | nil => exact .nil
  | cons b t ih =>
    obtain ⟨hascii, hcode⟩ := h b List.mem_cons_self
    exact .cons (x := []) (readHead_ascii hascii []) hcode
      (ih fun c hc => h c (List.mem_cons_of_mem _ hc))

/-- **A run over whole characters does not depend on what stands behind them**, if it does not go
on there. -/
theorem Chars.run_append (h : Chars q t) {w : Text} (hw : run p w = 0) :
    run p (t ++ w) = run p t := by
  induction h with
  | nil => rw [List.nil_append, hw, run]
  | cons hread _ _ ih =>
    rw [List.cons_append, List.append_assoc, run_cons hread, run_cons hread, ih]

/-- Two classes that agree on the characters of a text have the same runs in it. -/
theorem Chars.run_congr {p' : Nat → Bool} (h : Chars q t)
    (hp : ∀ c, q c = true → p c = p' c) : run p t = run p' t := by
  induction h with
  | nil => rw [run, run]
  | cons hread hq _ ih => rw [run_cons hread, run_cons hread, hp _ hq, ih]

/-- A byte of a text of whole characters is one of them, or beyond 0x80. -/
theorem Chars.of_mem (h : Chars p t) {b : UInt8} (hb : b ∈ t) : 0x80 ≤ b ∨ p b.toNat = true := by
  apply mem_take_run (t := t)
  rwa [chars_iff.mp h, List.take_length]

/-- So an ASCII byte that is not of the class is not in the text. -/
theorem Chars.not_mem (h : Chars p t) {b : UInt8} (hb : b < 0x80) (hp : p b.toNat = false) :
    b ∉ t := by
  intro hmem
  rcases h.of_mem hmem with hle | hclass
  · exact absurd hb (UInt8.not_lt.mpr hle)
  · rw [hp] at hclass
    cases hclass

theorem Chars.mono (h : Chars p t) (hp : ∀ c, p c = true → q c = true) : Chars q t := by
  induction h with
  | nil => exact .nil
  | cons hread hcode _ ih => exact .cons hread (hp _ hcode) ih

/-- A text of whole characters can be cut before every byte that begins one. -/
theorem Chars.right {x y : Text} (h : Chars p (x ++ y))
    (hy : y.head?.any isContinuation = false) : Chars p y := by
  generalize hxy : x ++ y = t at h
  induction h generalizing x with
  | nil =>
    obtain rfl := (List.append_eq_nil_iff.mp hxy).2
    exact .nil
  | @cons a z t code hread hp ht ih =>
    cases x with
    | nil =>
      rw [List.nil_append] at hxy
      rw [hxy]
      exact .cons hread hp ht
    | cons b x =>
      rw [List.cons_append] at hxy
      obtain ⟨-, hxy⟩ := List.cons.inj hxy
      rcases List.append_eq_append_iff.mp hxy with ⟨u, rfl, rfl⟩ | ⟨u, rfl, rfl⟩
      · -- the cut is within the first character or right behind it
        cases u with
        | nil => exact ht
        | cons b u =>
          have hmem : b ∈ (x ++ b :: u).take (x ++ b :: u).length := by
            rw [List.take_length]
            exact List.mem_append_right _ List.mem_cons_self
          rw [List.cons_append, List.head?_cons, Option.any_some,
            readHead_continues hread b hmem] at hy
          cases hy
      · exact ih rfl

end

end Utf8

end PascalSurvey
