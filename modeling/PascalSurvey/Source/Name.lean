/-
PascalSurvey/Source/Name.lean

Dotted names.  A name is a segment and any number of further segments, each after a dot;
blanks may stand on both sides of a dot.  What a segment is depends on the place: a plain
identifier in a `uses` clause, an identifier with type arguments in a routine header.
-/
import PascalSurvey.Text.Blank
import PascalSurvey.Text.WordChar

namespace PascalSurvey.Source

open Ascii

/-- The number of bytes of the further segments `. segment` at the head of a text.
`segment` gives the length of one segment. -/
def moreSegments (segment : Text → Option Nat) (t : Text) : Nat :=
  let lead := Text.blankRun t
  match _h : t.drop lead with
  | dot :: r =>
    let gap := Text.blankRun r
    match segment (r.drop gap) with
    | some n => (lead + 1 + gap + n) + moreSegments segment (t.drop (lead + 1 + gap + n))
    | none => 0
  | _ => 0
termination_by t.length
decreasing_by
  have : (t.drop lead).length = r.length + 1 := by rw [_h]; simp
  simp only [List.length_drop] at *
  omega

/-- The length of the dotted name at the head of a text. -/
def dottedName? (segment : Text → Option Nat) (t : Text) : Option Nat :=
  (segment t).map fun n => n + moreSegments segment (t.drop n)

end PascalSurvey.Source
