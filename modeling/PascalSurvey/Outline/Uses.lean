/-
PascalSurvey/Outline/Uses.lean

`uses` clauses: the units that a unit or program names, each with the path that an `in` part
may give.
-/
import PascalSurvey.Source.Keyword
import PascalSurvey.Source.Mask
import PascalSurvey.Source.Name
import PascalSurvey.Source.Split

namespace PascalSurvey.Outline

open Ascii

/-- An entry of a `uses` clause. -/
structure UsesEntry where
  name : Text
  /-- The path after `in`, with slashes. -/
  inPath : Option Text
  deriving Repr, DecidableEq

namespace UsesEntry

/-- The path of an `in` part at the head of a text. -/
def inPath? (t : Text) : Option Text := do
  let lead := Text.blankRun t
  let n ← Text.matchFold? "in" (t.drop lead)
  let gap := Text.blankRun (t.drop (lead + n))
  if lead = 0 ∨ gap = 0 then none
  else match t.drop (lead + n + gap) with
    | quote :: r => (Text.cut? quote r).map (·.1)
    | _ => none

/-- The entry that an item of a clause begins with. -/
def ofItem? (item : Text) : Option UsesEntry := do
  let t := Text.trim item
  let n ← Source.dottedName? Text.identFold? t
  some ⟨Text.withoutBlanks (t.take n), (inPath? (t.drop n)).map Text.forwardSlashes⟩

/-- The entries of the text between `uses` and its semicolon. -/
def parseClause (clause : Text) : List UsesEntry :=
  (Source.splitOutsideLiterals comma clause).filterMap ofItem?

/-- The entries of the first `uses` clause between two offsets.  The clause is located in the
overlay `code`, without comments and literals, and read from `noComments`. -/
def within (code noComments : Text) (start stop : Nat) : List UsesEntry :=
  match Source.findWordEnd? "uses" (Text.slice code start stop) with
  | none => []
  | some n =>
    match Text.find? semicolon (Text.slice code (start + n) stop) with
    | none => []
    | some m => parseClause (Text.slice noComments (start + n) (start + n + m))

/-- The entries of the first `uses` clause of a text. -/
def ofProgram (t : Text) : List UsesEntry :=
  within (Source.mask .commentsAndLiterals t) (Source.mask .comments t) 0 t.length

end UsesEntry
end PascalSurvey.Outline
