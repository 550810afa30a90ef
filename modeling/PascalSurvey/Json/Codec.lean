/-
PascalSurvey/Json/Codec.lean

How records are written as JSON and read back.  A record is an object with one member per
field.  It is read from an object, whose unknown members do not matter and whose known ones
must not be repeated, or from an array of all fields in order.  A missing field is an error
unless the field is optional; for an optional field `null` and nothing mean the same.

An enumeration is a string, and is also read from an object whose one member has that string
as key and `null` as value.
-/
import PascalSurvey.Json.Value
import PascalSurvey.Text.Utf8

namespace PascalSurvey.Json

/-! ### Writing -/

def ofOption {α : Type} (f : α → Json) : Option α → Json
  | some a => f a
  | none => .null

def ofList {α : Type} (f : α → Json) (xs : List α) : Json := .arr (xs.map f)

/-! ### Reading -/

/-- A string that is a well-formed text. -/
def text? : Json → Option Text
  | .str t => if Utf8.isValid t then some t else none
  | _ => none

/-- A natural number below `bound`. -/
def nat? (bound : Nat) : Json → Option Nat
  | .nat n => if n < bound then some n else none
  | _ => none

def bool? : Json → Option Bool
  | .bool b => some b
  | _ => none

def list? {α : Type} (item : Json → Option α) : Json → Option (List α)
  | .arr items => items.mapM item
  | _ => none

/-- The name of an enumerated value. -/
def name? : Json → Option Text
  | .str t => some t
  | .obj [(k, .null)] => some k
  | _ => none

/-- The values of one field of an object: none if it is missing, an error if it is repeated. -/
def member? (members : List (Text × Json)) (key : Text) : Option (Option Json) :=
  match members.filter fun (k, _) => k == key with
  | [] => some none
  | [(_, v)] => some (some v)
  | _ => none

/-- The values of the fields of a record, in the order of their names. -/
def fields? (names : List Text) : Json → Option (List (Option Json))
  | .obj members =>
    if members.all fun (k, _) => Utf8.isValid k then names.mapM (member? members) else none
  | .arr items => if items.length = names.length then some (items.map some) else none
  | _ => none

/-- A field that must be there. -/
def required {α : Type} (read : Json → Option α) : Option Json → Option α
  | some v => read v
  | none => none

/-- A field that may be missing or null. -/
def optional {α : Type} (read : Json → Option α) : Option Json → Option (Option α)
  | some .null => some none
  | some v => (read v).map some
  | none => some none

end PascalSurvey.Json
