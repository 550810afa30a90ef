/-
PascalSurvey/Xml/Element.lean

Element trees.  The lookups take names in order of preference: the first name that matches
any child decides.  Names are compared in any case, namespaces exactly.
-/
import PascalSurvey.Text.Blank

namespace PascalSurvey.Xml

/-- An element with its content.  The texts between its children are put together. -/
structure Element where
  space : Option Text
  name : Text
  attributes : List (Text × Text)
  text : Text
  children : List Element
  deriving Repr, Inhabited

/-- A name to look for. -/
inductive Name where
  /-- A local name in a namespace. -/
  | qualified (space local_ : Text)
  /-- A local name without a namespace. -/
  | plain (local_ : Text)
  deriving Repr, DecidableEq

namespace Element

def hasName (e : Element) : Name → Bool
  | .qualified space local_ => e.space == some space && Text.eqFold e.name local_
  | .plain local_ => e.space.isNone && Text.eqFold e.name local_

/-- The value of the first attribute with a name, in any case. -/
def attribute? (e : Element) (name : Text) : Option Text :=
  (e.attributes.find? fun (k, _) => Text.eqFold k name).map (·.2)

/-- The text without white space at its ends. -/
def value (e : Element) : Text := Text.trim e.text

/-- The first child that has the earliest name that any child has. -/
def first? (e : Element) (names : List Name) : Option Element :=
  names.findSome? fun n => e.children.find? (·.hasName n)

/-- The children that have the earliest name that any child has. -/
def all (e : Element) (names : List Name) : List Element :=
  ((names.map fun n => e.children.filter (·.hasName n)).find? (!·.isEmpty)).getD []

/-- The text of the first child found, unless it is blank. -/
def childValue? (e : Element) (names : List Name) : Option Text :=
  ((e.first? names).map value).filter (!·.isEmpty)

end Element
end PascalSurvey.Xml
