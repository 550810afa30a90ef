/-
PascalSurvey/Text/Blank.lean

White space beyond ASCII: the characters with the Unicode property White_Space, and the
cuts that follow it.  The no-break space is one of them; the zero-width no-break space is
not.  The vertical tab is white space here, though `Ascii.isBlank` leaves it out.
-/
import PascalSurvey.Text.Utf8

namespace PascalSurvey

/-- The Unicode property White_Space. -/
def isBlankChar (c : Nat) : Bool :=
  (0x09 ≤ c && c ≤ 0x0D) || c == 0x20 || c == 0x85 || c == 0xA0 || c == 0x1680 ||
  (0x2000 ≤ c && c ≤ 0x200A) || c == 0x2028 || c == 0x2029 || c == 0x202F || c == 0x205F ||
  c == 0x3000

namespace Text

/-- The number of bytes of white space at the head of a text. -/
def blankRun (t : Text) : Nat := Utf8.run isBlankChar t

def trimStart (t : Text) : Text := t.drop (blankRun t)

/-- Drops white space from the head of a text given in reverse. -/
def dropBlanksBack : Text → Text
  | [] => []
  | a :: before =>
    if a < 0x80 then
      if isBlankChar a.toNat then dropBlanksBack before else a :: before
    else
      match before with
      | b :: before₂ =>
        if (Utf8.code? [b, a]).any isBlankChar then dropBlanksBack before₂
        else match before₂ with
          | c :: before₃ =>
            if (Utf8.code? [c, b, a]).any isBlankChar then dropBlanksBack before₃
            else a :: b :: c :: before₃
          | [] => [a, b]
      | [] => [a]

def trimEnd (t : Text) : Text := (dropBlanksBack t.reverse).reverse

def trim (t : Text) : Text := trimEnd (trimStart t)

theorem length_dropBlanksBack_le (t : Text) : (dropBlanksBack t).length ≤ t.length := by
  fun_induction dropBlanksBack t <;> simp_all <;> omega

theorem length_trim_le (t : Text) : (trim t).length ≤ t.length := by
  have := length_dropBlanksBack_le (trimStart t).reverse
  simp [trim, trimEnd, trimStart] at *
  omega

/-- The number of bytes in the run of characters at the head that are no white space. -/
def inkRun (t : Text) : Nat := Utf8.run (fun c => !isBlankChar c) t

/-- The words of a text: its maximal runs without white space. -/
def words (t : Text) : List Text :=
  let lead := blankRun t
  let n := inkRun (t.drop lead)
  if n = 0 ∨ t.length = 0 then [] else (t.drop lead).take n :: words (t.drop (lead + n))
termination_by t.length
decreasing_by simp +zetaDelta only [List.length_drop] at *; omega

/-- A text with every run of white space written as one space, and none at the ends. -/
def squeeze (t : Text) : Text := join [Ascii.space] (words t)

/-- A text without its white space. -/
def withoutBlanks (t : Text) : Text := Utf8.remove isBlankChar t

/-- The text before the first white space and after that one character. -/
def cutBlank? : Text → Option (Text × Text)
  | [] => none
  | t@(a :: r) => match Utf8.head? t with
    | some (c, n) =>
      if isBlankChar c then some ([], t.drop n) else (cutBlank? r).map fun (x, y) => (a :: x, y)
    | none => (cutBlank? r).map fun (x, y) => (a :: x, y)

end Text
end PascalSurvey
