/-
PascalSurvey/Routine/Kind.lean

The four kinds of routine and the words that announce them.
-/
import PascalSurvey.Text.Basic

namespace PascalSurvey.Routine

/-- The kinds of routine. -/
inductive Kind where
  | procedure
  | function
  | constructor
  | destructor
  deriving Repr, DecidableEq, Inhabited

namespace Kind

def all : List Kind := [.procedure, .function, .constructor, .destructor]

/-- The keyword of a kind, in lower case. -/
def keyword : Kind → Text
  | .procedure => "procedure"
  | .function => "function"
  | .constructor => "constructor"
  | .destructor => "destructor"

/-- The kind that a word announces, in any case. -/
def ofKeyword? (word : Text) : Option Kind := all.find? fun k => Text.eqFold word k.keyword

end Kind
end PascalSurvey.Routine
