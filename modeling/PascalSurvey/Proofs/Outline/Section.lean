/-
PascalSurvey/Proofs/Outline/Section.lean

Where the sections of a unit are cut.  Keywords are looked for in the overlay, and a letter of
the overlay is a letter of code.  So a section that begins behind a keyword begins outside
comments and literals, and one that ends before a keyword, or with the text, ends outside them
(`outside_sections`).

Main result: the text in which methods are looked for is a slice of the unit with both ends
outside comments and literals (`body_eq_slice`).
-/
import PascalSurvey.Outline.Basic
import PascalSurvey.Proofs.Source.Overlay
import PascalSurvey.Proofs.Text.Local

namespace PascalSurvey

open Ascii Source

/-! ### Keywords in the overlay -/

theorem isFiller_of_lower {b w : UInt8} (h : lower b = w) (hw : isLower w = true) :
    isFiller b = false :=
  not_isFiller_of_class (isLetter_of_lower h hw) rfl

/-- The first byte of a keyword that is found stands in no comment or literal. -/
theorem matchFold?_first {w : UInt8} {word t : Text} {n : Nat} (hw : isLower w = true)
    (h : Text.matchFold? (w :: word) t = some n) : ∃ b, t[0]? = some b ∧ isFiller b = false := by
  cases t with
  | nil => cases h
  | cons b r =>
    refine ⟨b, rfl, ?_⟩
    rw [Text.matchFold?_cons] at h
    split at h
    · next hb => exact isFiller_of_lower hb hw
    · split at h
      · next hs =>
        rw [hs.1]
        decide
      · split at h
        · next hk =>
          rw [hk.1]
          decide
        · cases h

/-- The last byte of a keyword that is found stands in no comment or literal. -/
theorem matchFold?_last {word t : Text} {n : Nat} (hword : ∀ w ∈ word, isLower w = true)
    (h : Text.matchFold? word t = some n) :
    (word = [] ∧ n = 0) ∨ ∃ k b, n = k + 1 ∧ t[k]? = some b ∧ isFiller b = false := by
  induction word generalizing t n with
  | nil =>
    rw [Text.matchFold?] at h
    exact .inl ⟨rfl, (Option.some.inj h).symm⟩
  | cons w word ih =>
    right
    -- the letter `w` takes `s + 1` bytes, and the other letters stand behind it
    have behind {s : Nat} {c : UInt8} (hc : t[s]? = some c) (hf : isFiller c = false)
        (h : (Text.matchFold? word (t.drop (s + 1))).map (· + (s + 1)) = some n) :
        ∃ k b, n = k + 1 ∧ t[k]? = some b ∧ isFiller b = false := by
      obtain ⟨m, hm, rfl⟩ := Option.map_eq_some_iff.mp h
      rcases ih (fun w hw => hword w (List.mem_cons_of_mem _ hw)) hm with
        ⟨-, rfl⟩ | ⟨k, b, rfl, hb, hfb⟩
      · exact ⟨s, c, by omega, hc, hf⟩
      · rw [List.getElem?_drop] at hb
        exact ⟨s + 1 + k, b, by omega, hb, hfb⟩
    cases t with
    | nil => cases h
    | cons b r =>
      rw [Text.matchFold?_cons] at h
      split at h
      · next hb =>
        exact behind (s := 0) rfl (isFiller_of_lower hb (hword w List.mem_cons_self)) h
      · split at h
        · next hs => exact behind (s := 1) (c := 0xBF) hs.2.1 (by decide) h
        · split at h
          · next hk => exact behind (s := 2) (c := 0xAA) hk.2.2.1 (by decide) h
          · cases h

theorem outside_of_findLine? {word t : Text} {s e : Nat} (hne : word ≠ [])
    (hword : ∀ w ∈ word, isLower w = true) (h : findLine? word (overlay t) = some (s, e)) :
    Outside t e := by
  obtain ⟨j, hj, hp⟩ := Cursor.search?_eq_some (i := 0) (Nat.zero_le _) h
  split at hp
  · obtain ⟨n, hn, heq⟩ := Option.map_eq_some_iff.mp hp
    obtain ⟨n', hfold, hn⟩ := Option.bind_eq_some_iff.mp hn
    split at hn
    · cases hn
    · cases hn
      rcases matchFold?_last hword hfold with ⟨hnil, -⟩ | ⟨k, b, rfl, hb, hf⟩
      · exact absurd hnil hne
      · rw [Cursor.after_ofOffset, List.drop_drop, List.getElem?_drop] at hb
        have hout := outside_succ_of_overlay hb hf
        rw [Cursor.offset_ofOffset hj, Cursor.after_ofOffset] at heq
        rwa [Nat.add_assoc, (Prod.mk.inj heq).2] at hout
  · cases hp

namespace Outline

theorem outside_of_mem_finalEnds {t : Text} {i : Nat} (h : i ∈ finalEnds (overlay t)) :
    Outside t i := by
  obtain ⟨j, hj, n, hp⟩ := Cursor.mem_searchAll (i := 0) (Nat.zero_le _) h
  dsimp only at hp
  split at hp
  · cases hp
  · obtain ⟨m, hm, hp⟩ := Option.bind_eq_some_iff.mp hp
    split at hp
    · obtain ⟨rfl, -⟩ := Prod.mk.inj (Option.some.inj hp)
      obtain ⟨b, hb, hf⟩ := matchFold?_first (by decide) hm
      rw [Cursor.after_ofOffset, List.getElem?_drop, Nat.add_zero] at hb
      rw [Cursor.offset_ofOffset hj]
      exact (outside_of_isCode (isCode_of_not_filler hb hf)).1
    · cases hp

/-- The implementation section begins and ends outside comments and literals. -/
theorem outside_sections {t : Text} {s e : Nat} (h : (sections (overlay t)).2 = some (s, e)) :
    Outside t s ∧ Outside t e ∧ s ≤ e := by
  obtain ⟨⟨lineStart, stop⟩, hline, heq⟩ := Option.map_eq_some_iff.mp h
  obtain ⟨rfl, rfl⟩ := Prod.mk.inj heq
  have hstart := outside_of_findLine? (by decide) (List.all_eq_true.mp rfl) hline
  refine ⟨hstart, ?_⟩
  rcases hlast : (finalEnds ((overlay t).drop stop)).getLast? with - | i
  · simp only [Option.map_none, Option.getD_none, length_mask]
    exact ⟨outside_length t, hstart.le_length⟩
  · simp only [Option.map_some, Option.getD_some]
    rw [hstart.overlay_drop] at hlast
    exact ⟨hstart.add (outside_of_mem_finalEnds (List.mem_of_getLast? hlast)), by omega⟩

/-- **Methods are looked for in a slice of the unit** that begins and ends outside comments
and literals, and whose first line is the one on which it begins. -/
theorem body_eq_slice (t : Text) (file : Path) :
    ∃ s e, Outside t s ∧ Outside t e ∧ s ≤ e ∧
      (ofText t file).body t = (Text.slice t s e, Text.lineOf t s) := by
  rcases hsec : (sections (overlay t)).2 with - | ⟨s, e⟩
  · refine ⟨0, t.length, outside_zero t, outside_length t, Nat.zero_le _, ?_⟩
    have himpl : (ofText t file).implementation = none := hsec
    rw [body, himpl, Text.slice, List.drop_zero, Nat.sub_zero, List.take_length]
    rfl
  · obtain ⟨hs, he, hse⟩ := outside_sections hsec
    refine ⟨s, e, hs, he, hse, ?_⟩
    have himpl : (ofText t file).implementation = some (s, e) := hsec
    rw [body, himpl]

end Outline
end PascalSurvey
