/-
PascalSurvey/Proofs/Text/Boundary.lean

Where a text can be cut without splitting a character.  A byte below 0x80 is a character of
its own, so in a text of whole characters the offsets before and behind it are boundaries
(`boundary_of_ascii`, `boundary_succ_of_ascii`).  Everything that is cut out of a source text
begins and ends at such a byte, which is why no cut needs to look for boundaries.  For the
same reason the bytes of a run of characters are the characters, if all are below 0x80
(`run_ascii`).
-/
import PascalSurvey.Text.Utf8

namespace PascalSurvey.Utf8

/-- An offset of a text at which no character is split. -/
def Boundary (t : Text) (i : Nat) : Prop :=
  i ≤ t.length ∧ (t[i]?).any isContinuation = false

theorem boundary_length (t : Text) : Boundary t t.length := by
  refine ⟨Nat.le_refl _, ?_⟩
  simp

/-- The offset before a byte below 0x80 is a boundary. -/
theorem boundary_of_ascii {t : Text} {i : Nat} {b : UInt8} (h : t[i]? = some b) (hb : b < 0x80) :
    Boundary t i := by
  refine ⟨Nat.le_of_lt (List.getElem?_eq_some_iff.mp h).1, ?_⟩
  rw [h, Option.any_some, isContinuation]
  simp [UInt8.not_le.mpr hb]

theorem le_of_isContinuation {b : UInt8} (h : isContinuation b = true) : 0x80 ≤ b := by
  simp only [isContinuation, Bool.and_eq_true, decide_eq_true_eq] at h
  exact h.1

theorem le_of_follows {a b : UInt8} (h : follows a b = true) : 0x80 ≤ b := by
  simp only [follows, Bool.and_eq_true, decide_eq_true_eq] at h
  have hle : (0x80 : UInt8) ≤ (secondRange a).1 := by
    unfold secondRange
    split
    · decide
    · split
      · decide
      · split
        · decide
        · split <;> decide
  exact UInt8.le_trans hle h.1

/-- A byte below 0x80 does not go on with a character. -/
theorem not_continues_of_lt {c : UInt8} (hc : c < 0x80) (a : UInt8) :
    isContinuation c = false ∧ follows a c = false := by
  constructor
  · rw [Bool.eq_false_iff]
    intro h
    exact absurd hc (UInt8.not_lt.mpr (le_of_isContinuation h))
  · rw [Bool.eq_false_iff]
    intro h
    exact absurd hc (UInt8.not_lt.mpr (le_of_follows h))

/-- A character that is read is one byte below 0x80, or all its bytes are beyond. -/
theorem readHead_scalar {a : UInt8} {r : Text} {code more : Nat}
    (h : readHead a r = .scalar code more) :
    more ≤ r.length ∧ isContinuation a = false ∧ (a < 0x80 → more = 0) ∧
      ∀ b ∈ r.take more, 0x80 ≤ b := by
  have hcont (h : ¬a < 0xC2) : isContinuation a = false := by
    rw [isContinuation, Bool.and_eq_false_iff, decide_eq_false_iff_not, decide_eq_false_iff_not]
    right
    intro h'
    apply h
    exact UInt8.lt_of_le_of_lt h' (by decide)
  revert h
  fun_cases readHead a r with
  | case1 r hascii =>
    intro h
    obtain ⟨-, rfl⟩ := Head.scalar.inj h
    refine ⟨Nat.zero_le _, ?_, fun _ => rfl, by simp⟩
    simp [isContinuation, UInt8.not_le.mpr hascii]
  | case3 hascii hlow _ b r hb =>
    intro h
    obtain ⟨-, rfl⟩ := Head.scalar.inj h
    refine ⟨by simp, hcont hlow, fun h => absurd h hascii, ?_⟩
    simpa using le_of_isContinuation hb
  | case6 hascii hlow _ _ b hb c r hc =>
    intro h
    obtain ⟨-, rfl⟩ := Head.scalar.inj h
    refine ⟨by simp, hcont hlow, fun h => absurd h hascii, ?_⟩
    simpa using ⟨le_of_follows hb, le_of_isContinuation hc⟩
  | case11 hascii hlow _ _ _ b hb c hc d r hd =>
    intro h
    obtain ⟨-, rfl⟩ := Head.scalar.inj h
    refine ⟨by simp, hcont hlow, fun h => absurd h hascii, ?_⟩
    simpa using ⟨le_of_follows hb, le_of_isContinuation hc, le_of_isContinuation hd⟩
  | _ => exact nofun

theorem readHead_ascii {a : UInt8} (ha : a < 0x80) (r : Text) :
    readHead a r = .scalar a.toNat 0 := by
  simp [readHead, ha]

/-- An ASCII byte goes on with no character. -/
theorem readHead_separator {c : UInt8} (hc : c < 0x80) (a : UInt8) (x y : Text) :
    readHead a (x ++ c :: y) = readHead a x := by
  obtain ⟨hcont, hfollows⟩ := not_continues_of_lt hc a
  match x with
  | [] => simp only [readHead, List.nil_append, hcont, hfollows, Bool.false_eq_true, if_false]
  | [b] => simp only [readHead, List.singleton_append, hcont, Bool.false_eq_true, if_false]
  | [b, d] =>
    simp only [readHead, List.cons_append, List.nil_append, hcont, Bool.false_eq_true, if_false]
  | b :: d :: e :: x => rfl

/-- Bytes that begin a character and cannot go on are bytes of the text. -/
theorem readHead_broken {a : UInt8} {r : Text} {more : Nat} (h : readHead a r = .broken more) :
    more ≤ r.length := by
  revert h
  fun_cases readHead a r with
  | _ =>
    intro h
    cases h <;> simp

/-! ### Runs -/

theorem run_le (p : Nat → Bool) (t : Text) : run p t ≤ t.length := by
  fun_induction run p t with
  | case1 => exact Nat.le_refl 0
  | case2 a r code more hread _ ih =>
    have := (readHead_scalar hread).1
    rw [List.length_drop] at ih
    rw [List.length_cons]
    omega
  | case3 | case4 => exact Nat.zero_le _

/-- Bytes below 0x80 at the head belong to the run if each of them does. -/
theorem run_append {p : Nat → Bool} {t : Text} (h : ∀ b ∈ t, b < 0x80 ∧ p b.toNat = true)
    (u : Text) : run p (t ++ u) = t.length + run p u := by
  induction t with
  | nil => simp
  | cons a t ih =>
    obtain ⟨ha, hp⟩ := h a List.mem_cons_self
    rw [List.cons_append, run, readHead_ascii ha]
    simp only [hp, if_true, List.drop_zero, Nat.zero_add, List.length_cons,
      ih fun b hb => h b (List.mem_cons_of_mem _ hb)]
    omega

theorem run_eq_zero {p : Nat → Bool} {b : UInt8} (hb : b < 0x80) (hp : p b.toNat = false)
    (r : Text) : run p (b :: r) = 0 := by
  rw [run, readHead_ascii hb]
  simp [hp]

/-- A byte of a run is a character of it, or beyond 0x80. -/
theorem mem_take_run {p : Nat → Bool} {t : Text} {b : UInt8} (h : b ∈ t.take (run p t)) :
    0x80 ≤ b ∨ p b.toNat = true := by
  fun_induction run p t with
  | case1 => simp at h
  | case2 a r code more hread hp ih =>
    rw [Nat.add_right_comm, List.take_succ_cons, List.take_add] at h
    rcases List.mem_cons.mp h with rfl | h
    · rcases UInt8.lt_or_le b 0x80 with hascii | hge
      · rw [readHead_ascii hascii] at hread
        obtain ⟨rfl, -⟩ := Head.scalar.inj hread
        exact .inr hp
      · exact .inl hge
    · rcases List.mem_append.mp h with h | h
      · exact .inl ((readHead_scalar hread).2.2.2 b h)
      · exact ih h
  | case3 | case4 => simp at h

/-- The bytes of a run in ASCII are its characters. -/
theorem run_ascii {p : Nat → Bool} {t : Text} (h : ∀ b ∈ t.take (run p t), b < 0x80) :
    ∀ b ∈ t.take (run p t), p b.toNat = true := by
  intro b hb
  exact (mem_take_run hb).resolve_left (UInt8.not_le.mpr (h b hb))

/-! ### Texts of whole characters -/

/-- A text of whole characters begins with one. -/
theorem boundary_zero {t : Text} (h : isValid t = true) : Boundary t 0 := by
  refine ⟨Nat.zero_le _, ?_⟩
  cases t with
  | nil => rfl
  | cons a r =>
    rw [isValid] at h
    rcases hread : readHead a r with ⟨code, more⟩ | more
    · obtain ⟨-, hcont, -, -⟩ := readHead_scalar hread
      exact hcont
    · rw [hread] at h
      cases h

/-- In a text of whole characters the offset behind a byte below 0x80 is a boundary. -/
theorem boundary_succ_of_ascii {t : Text} (hvalid : isValid t = true) {i : Nat} {b : UInt8}
    (hb : t[i]? = some b) (hascii : b < 0x80) : Boundary t (i + 1) := by
  fun_induction isValid t generalizing i with
  | case1 => simp at hb
  | case2 a r code more hread ih =>
    obtain ⟨hle, -, hone, hmore⟩ := readHead_scalar hread
    cases i with
    | zero =>
      -- the first byte is the whole character
      obtain rfl : a = b := Option.some.inj hb
      obtain rfl := hone hascii
      obtain ⟨hlen, hnext⟩ := boundary_zero (by simpa using hvalid)
      exact ⟨by simp, by simpa using hnext⟩
    | succ i =>
      rw [List.getElem?_cons_succ] at hb
      rcases Nat.lt_or_ge i more with hi | hi
      · have hmem : b ∈ r.take more := by
          apply List.mem_of_getElem? (i := i)
          rw [List.getElem?_take, if_pos hi, hb]
        exact absurd hascii (UInt8.not_lt.mpr (hmore b hmem))
      · have hb' : (r.drop more)[i - more]? = some b := by
          rw [List.getElem?_drop, Nat.add_sub_cancel' hi, hb]
        obtain ⟨hlen, hnext⟩ := ih (by simpa using hvalid) hb'
        rw [List.getElem?_drop, show more + (i - more + 1) = i + 1 by omega] at hnext
        rw [List.length_drop] at hlen
        exact ⟨by simp; omega, by simpa using hnext⟩
  | case3 a r more hread => simp at hvalid

end PascalSurvey.Utf8
