/-
PascalSurvey/Source/Mask.lean

Overlays of a source text in which what is not code is blank.  Line breaks stay and no byte
moves, so an offset or a line number means the same in a text and in its overlay.
-/
import PascalSurvey.Source.Region

namespace PascalSurvey.Source

open Ascii

/-- What an overlay blanks. -/
inductive Mask where
  /-- Comments, compiler directives included. -/
  | comments
  /-- Comments, and literals between their quotes. -/
  | commentsAndLiterals
  deriving Repr, DecidableEq

/-- A space in place of any byte but a line feed or a carriage return. -/
def blankByte (b : UInt8) : UInt8 := if b = newline ∨ b = cr then b else space

def blanked (t : Text) : Text := t.map blankByte

/-- The bytes after an opening quote, blank up to a final quote. -/
def blankLiteral (tail : Text) : Text :=
  if tail.getLast? = some quote then blanked tail.dropLast ++ [quote] else blanked tail

/-- A piece as the overlay shows it. -/
def Piece.masked (mode : Mask) : Piece → Text
  | .code b => [b]
  | .region .literal t => match mode, t with
    | .comments, t => t
    | .commentsAndLiterals, [] => []
    | .commentsAndLiterals, q :: tail => q :: blankLiteral tail
  | .region _ t => blanked t

/-- The overlay of a source text. -/
def mask (mode : Mask) (t : Text) : Text := (pieces t).flatMap (Piece.masked mode)

/-! ### An overlay keeps the length -/

@[simp] theorem length_blanked (t : Text) : (blanked t).length = t.length := by
  simp [blanked]

@[simp] theorem length_blankLiteral (t : Text) : (blankLiteral t).length = t.length := by
  unfold blankLiteral
  split
  · next h =>
    have : t ≠ [] := by rintro rfl; simp at h
    have := List.length_pos_iff.mpr this
    simp; omega
  · simp

@[simp] theorem Piece.length_masked (mode : Mask) (p : Piece) :
    (p.masked mode).length = p.text.length := by
  cases p with
  | code b => rfl
  | region kind t =>
    cases kind <;> cases mode <;> cases t <;> simp [Piece.masked, Piece.text]

@[simp] theorem length_mask (mode : Mask) (t : Text) : (mask mode t).length = t.length := by
  conv => rhs; rw [← flatMap_text_pieces t]
  simp [mask, List.length_flatMap]

end PascalSurvey.Source
