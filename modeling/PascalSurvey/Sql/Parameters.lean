/-
PascalSurvey/Sql/Parameters.lean

The parameters of a query text: the names after single colons outside quotes, each once, in
the order in which they first stand.
-/
import PascalSurvey.Text.WordChar

namespace PascalSurvey.Sql

open Ascii

/-- The length of the name at the head of a text.  It begins with an ASCII letter or an
underscore and goes on with letters, numbers and underscores of every script. -/
def parameterName (t : Text) : Nat :=
  match t with
  | b :: r => if isIdentStart b then 1 + Utf8.run (fun c => c == 0x5F || isAlphanumeric c) r else 0
  | [] => 0

/-- The number of bytes through the first byte `q`. -/
def through (q : UInt8) : Text → Nat
  | [] => 0
  | b :: r => if b = q then 1 else 1 + through q r

/-- The names after single colons, in order. -/
def parameterUses : Text → List Text
  | [] => []
  | b :: r =>
    if b = quote ∨ b = doubleQuote then parameterUses (r.drop (through b r))
    else if b = colon then
      if r.head? = some colon then parameterUses r.tail
      else
        let n := parameterName r
        if n = 0 then parameterUses r else r.take n :: parameterUses (r.drop n)
    else parameterUses r
termination_by t => t.length
decreasing_by all_goals simp only [List.length_drop, List.length_tail, List.length_cons]; omega

/-- The parameters of a query text. -/
def parametersOf (sql : Text) : List Text := Text.dedupFold (parameterUses sql)

end PascalSurvey.Sql
