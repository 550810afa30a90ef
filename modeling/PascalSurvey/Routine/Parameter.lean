/-
PascalSurvey/Routine/Parameter.lean

Parameter lists.  A list is a sequence of groups between semicolons.  A group is an optional
modifier, names between commas and, after a colon, a type up to an equals sign; every name
of a group becomes a parameter with the group's type and modifier.
-/
import PascalSurvey.Text.Blank

namespace PascalSurvey.Routine

open Ascii

/-- How an argument is passed. -/
inductive Modifier where
  | none
  | var
  | const
  | out
  deriving Repr, DecidableEq, Inhabited

/-- The modifier that a word announces, in any case.  `constref` passes a reference, but the
routine reads it like a constant. -/
def Modifier.ofKeyword? (word : Text) : Option Modifier :=
  if Text.eqFold word "var" then some .var
  else if Text.eqFold word "const" || Text.eqFold word "constref" then some .const
  else if Text.eqFold word "out" then some .out
  else Option.none

/-- A parameter of a routine. -/
structure Parameter where
  name : Text
  /-- The declared type with single spaces; empty for an untyped parameter. -/
  typeText : Text
  modifier : Modifier
  deriving Repr, DecidableEq

namespace Parameter

/-- A group without its modifier. -/
def splitModifier (group : Text) : Modifier × Text :=
  match Text.cutBlank? group with
  | some (first, rest) => match Modifier.ofKeyword? first with
    | some m => (m, Text.trimStart rest)
    | none => (.none, group)
  | none => (.none, group)

/-- The names of a group and its type.  A default value after an equals sign is no part of
the type. -/
def splitType (group : Text) : Text × Text :=
  match Text.cut? colon group with
  | some (names, rest) => (names, Text.squeeze (rest.takeWhile (· != equals)))
  | none => (group, [])

/-- The parameters of one group. -/
def ofGroup (group : Text) : List Parameter :=
  let (modifier, rest) := splitModifier (Text.trim group)
  let (names, typeText) := splitType rest
  (((Text.split comma names).map Text.trim).filter (!·.isEmpty)).map (⟨·, typeText, modifier⟩)

/-- The parameters that a text between parentheses lists. -/
def parseList (t : Text) : List Parameter :=
  (Text.split semicolon t).flatMap ofGroup

end Parameter
end PascalSurvey.Routine
