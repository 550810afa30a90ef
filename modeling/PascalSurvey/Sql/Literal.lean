/-
PascalSurvey/Sql/Literal.lean

String constants: quoted strings and character codes, one after another with blanks between
them.  Two quotes inside a string stand for one.  A code is `#` with decimal digits or `#$`
with hexadecimal digits; one that names a control character or no character at all reads as
a space.
-/
import PascalSurvey.Bound
import PascalSurvey.Source.Region
import PascalSurvey.Text.WordChar

namespace PascalSurvey.Sql

open Ascii

/-- Every pair of quotes becomes one. -/
def singleQuotes : Text → Text
  | quote :: quote :: r => quote :: singleQuotes r
  | b :: r => b :: singleQuotes r
  | [] => []

/-- The text of a quoted string, given what follows its opening quote: the bytes up to a
final quote.  None if no quote ends it. -/
def stringValue? (tail : Text) : Option Text :=
  if tail.getLast? = some quote then some (singleQuotes tail.dropLast) else none

/-- The character of a code, as it reads in a text. -/
def codeText (code : Nat) : Text :=
  if Utf8.isScalar code && !isControl code then Utf8.encode code else [space]

/-- The code at the head of a text and the number of its bytes.  Codes fit in 32 bits. -/
def charCode? (t : Text) : Option (Nat × Nat) :=
  let (base, lead, digits) := match t with
    | dollar :: r => (16, 1, r.takeWhile isHexDigit)
    | _ => (10, 0, t.takeWhile isDigit)
  let code := Text.digitsValue base digits
  if digits.isEmpty || Bound.word32 ≤ code then none else some (code, lead + digits.length)

/-- The text that the parts of a constant write. -/
def literalParts? : Text → Option Text
  | [] => some []
  | b :: r =>
    if b = quote then
      let n := Source.literalTail r
      match stringValue? (r.take n) with
      | some v => (literalParts? (r.drop n)).map (v ++ ·)
      | none => none
    else if b = numberSign then
      match charCode? r with
      | some (code, n) => (literalParts? (r.drop n)).map (codeText code ++ ·)
      | none => none
    else if isBlank b then literalParts? r
    else none
termination_by t => t.length
decreasing_by all_goals simp only [List.length_drop, List.length_cons]; omega

/-- The text that a string constant writes; none for any other term. -/
def parseLiteral? (term : Text) : Option Text :=
  if term.isEmpty then none else literalParts? term

end PascalSurvey.Sql
