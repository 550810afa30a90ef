/-
PascalSurvey/Text/Cursor.lean

A place in a text: the bytes before it, nearest first, the bytes after it, and how many
stand before.  Looking back one byte and looking ahead are both steps on a list, so a scan
that needs both is a recursion on `after`.
-/
import PascalSurvey.Text.Basic

namespace PascalSurvey

/-- A place in a text. -/
structure Cursor where
  /-- The number of bytes before the place. -/
  offset : Nat
  /-- The bytes before the place, nearest first. -/
  before : Text
  /-- The bytes after the place. -/
  after : Text
  deriving Repr, DecidableEq

namespace Cursor

/-- The place before the first byte. -/
def start (t : Text) : Cursor := ⟨0, [], t⟩

/-- Moves `n` bytes on, or to the end of the text. -/
def advance : Nat → Cursor → Cursor
  | 0, c => c
  | _ + 1, ⟨o, bs, []⟩ => ⟨o, bs, []⟩
  | n + 1, ⟨o, bs, a :: as⟩ => advance n ⟨o + 1, a :: bs, as⟩

/-- The place at an offset of a text. -/
def ofOffset (t : Text) (offset : Nat) : Cursor := (start t).advance offset

@[simp] theorem length_after_advance (n : Nat) (c : Cursor) :
    (c.advance n).after.length = c.after.length - n := by
  induction n generalizing c with
  | zero => simp [advance]
  | succ n ih =>
    obtain ⟨o, bs, as⟩ := c
    cases as with
    | nil => simp [advance]
    | cons a as => simp [advance, ih]

/-- Whether no byte follows. -/
def atEnd (c : Cursor) : Bool := c.after.isEmpty

/-- Moving on from a place that is not the end leaves fewer bytes. -/
theorem length_after_advance_lt {c : Cursor} {n : Nat} (h : ¬c.atEnd = true) (hn : 0 < n) :
    (c.advance n).after.length < c.after.length := by
  have : 0 < c.after.length := by
    rw [List.length_pos_iff]
    rintro hnil
    exact h (by simp [atEnd, hnil])
  simp only [length_after_advance]
  omega

/-! ### Searching -/

/-- The answer of `p` at the first place, from here on, where it has one. -/
def search? {α : Type} (p : Cursor → Option α) (c : Cursor) : Option α :=
  match p c with
  | some a => some a
  | none => if c.atEnd then none else search? p (c.advance 1)
termination_by c.after.length
decreasing_by exact length_after_advance_lt ‹_› (by omega)

/-- The answers of `p` at all places from here on, with the search going on behind the number
of bytes that an answer takes. -/
def searchAll {α : Type} (p : Cursor → Option (α × Nat)) (c : Cursor) : List α :=
  match p c with
  | some (a, n) =>
    a :: if c.atEnd then [] else searchAll p (c.advance (max 1 n))
  | none => if c.atEnd then [] else searchAll p (c.advance 1)
termination_by c.after.length
decreasing_by all_goals exact length_after_advance_lt ‹_› (by omega)

end Cursor
end PascalSurvey
