/-
PascalSurvey/Program.lean

Program files: conditional compilation, the `uses` clause and the console directive.
Conditions are not evaluated; their directives are deleted, and the code of all branches
stays.
-/
import PascalSurvey.Outline.Uses

namespace PascalSurvey.Program

open Ascii

/-- The words of conditional compilation. -/
def conditionWords : List Text :=
  ["ifdef", "ifndef", "ifopt", "ifend", "if", "elseif", "else", "endif"]

/-- The length of a condition word at the head of a text. -/
def conditionWord? (t : Text) : Option Nat :=
  conditionWords.findSome? fun w => Text.matchWord? w t

/-- The length of a condition in braces at the head of a text. -/
def braceCondition? (t : Text) : Option Nat := do
  let r ← Text.after? "\x7b$" t
  let n ← conditionWord? r
  let m ← Text.find? rbrace (r.drop n)
  some (2 + n + m + 1)

/-- The distance to the first star with a closing parenthesis after it. -/
def findStarParen? : Text → Option Nat
  | [] => none
  | asterisk :: rparen :: _ => some 0
  | _ :: r => (findStarParen? r).map (· + 1)

/-- The length of a condition in parentheses with stars at the head of a text. -/
def starCondition? (t : Text) : Option Nat := do
  let r ← Text.after? "(*$" t
  let n ← conditionWord? r
  let m ← findStarParen? (r.drop n)
  some (3 + n + m + 2)

/-- A text without the parts that `part?` recognises. -/
def delete (part? : Text → Option Nat) : Text → Text
  | [] => []
  | b :: r => match part? (b :: r) with
    | some n => delete part? (r.drop (n - 1))
    | none => b :: delete part? r
termination_by t => t.length
decreasing_by all_goals simp only [List.length_drop, List.length_cons]; omega

/-- A text without the directives of conditional compilation. -/
def withoutConditions (t : Text) : Text :=
  delete starCondition? (delete braceCondition? t)

/-- The entries of the program's `uses` clause. -/
def uses (t : Text) : List Outline.UsesEntry :=
  Outline.UsesEntry.ofProgram (withoutConditions t)

/-- Whether a text begins with the directive of console applications. -/
def consoleDirective (t : Text) : Bool :=
  (do
    let r ← Text.after? "\x7b$" t
    let n ← Text.matchFold? "apptype" r
    let gap := Text.blankRun (r.drop n)
    let m ← if gap = 0 then none else Text.matchFold? "console" (r.drop (n + gap))
    let rest := r.drop (n + gap + m)
    Text.after? "\x7d" (rest.drop (Text.blankRun rest))).isSome

/-- Whether a program says that it is a console application. -/
def isConsole : Text → Bool
  | [] => false
  | t@(_ :: r) => consoleDirective t || isConsole r

end PascalSurvey.Program
