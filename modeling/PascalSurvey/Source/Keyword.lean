/-
PascalSurvey/Source/Keyword.lean

Finding keywords in the overlay of a source text: a whole word anywhere, or a word that
begins a line after spaces and tabs.
-/
import PascalSurvey.Text.Cursor
import PascalSurvey.Text.WordChar

namespace PascalSurvey.Source

open Ascii

/-- The length of `word` at a place where a whole word begins and ends. -/
def wordAt? (word : Text) (c : Cursor) : Option Nat :=
  if Text.endsWord c.before then none else Text.matchWord? word c.after

/-- Where the first whole word `word` ends. -/
def findWordEnd? (word t : Text) : Option Nat :=
  (Cursor.start t).search? fun c => (wordAt? word c).map (c.offset + ·)

/-- Whether a place is at the start of a line. -/
def atLineStart (c : Cursor) : Bool :=
  match c.before with
  | [] => true
  | b :: _ => b == newline

/-- The number of spaces and tabs at the head of a text. -/
def indent (t : Text) : Nat := (t.takeWhile fun b => b == space || b == tab).length

/-- The start of the first line that begins with the whole word `word`, and the end of that
word. -/
def findLine? (word t : Text) : Option (Nat × Nat) :=
  (Cursor.start t).search? fun c =>
    if atLineStart c then
      let lead := indent c.after
      (Text.matchWord? word (c.after.drop lead)).map fun n => (c.offset, c.offset + lead + n)
    else none

end PascalSurvey.Source
