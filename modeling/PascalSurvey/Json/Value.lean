/-
PascalSurvey/Json/Value.lean

JSON values.  Strings are texts, and an object keeps its members in the order in which they
are written, repeated keys included.  Natural numbers are exact; any other number is kept as
it is written, since nothing in this library computes with one.
-/
import PascalSurvey.Text.Basic

namespace PascalSurvey

/-- A JSON value. -/
inductive Json where
  | null
  | bool (b : Bool)
  | nat (n : Nat)
  /-- A number that is no plain natural number, as written. -/
  | real (lexeme : Text)
  | str (t : Text)
  | arr (items : List Json)
  | obj (members : List (Text × Json))
  deriving Repr, Inhabited

namespace Json

/-- The value of the first member with the given key. -/
def get? (key : Text) : Json → Option Json
  | .obj members => (members.find? fun (k, _) => k == key).map (·.2)
  | _ => none

end Json
end PascalSurvey
