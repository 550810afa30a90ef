/-
PascalSurvey/Routine/Method.lean

Methods: routines with a body, cut out of a section of a unit.  A header that is only a
declaration, and one whose body is never reached (a member of a class that is declared in
the section), gives no method.
-/
import PascalSurvey.Routine.Body
import PascalSurvey.Routine.Parameter
import PascalSurvey.Source.Mask

namespace PascalSurvey.Routine

/-- A routine with its body. -/
structure Method where
  kind : Kind
  /-- The class it belongs to; none for a standalone routine. -/
  className : Option Text
  name : Text
  isClassMethod : Bool
  returnType : Option Text
  parameters : List Parameter
  /-- The text from the header through the closing `end`. -/
  source : Text
  startLine : Nat
  endLine : Nat
  /-- Whether a balanced `end` closes the body. -/
  terminated : Bool
  deriving Repr, DecidableEq

namespace Method

def isStandalone (m : Method) : Bool := m.className.isNone

/-- The name with the class before it. -/
def fullName (m : Method) : Text :=
  match m.className with
  | some c => c ++ Ascii.dot :: m.name
  | none => m.name

/-- The method with header `h` whose body ends at `stop`.  `firstLine` is the line on which
`text` starts. -/
def ofHeader (text masked : Text) (h : Header) (stop : Nat) (terminated : Bool)
    (firstLine : Nat) : Method :=
  let source := Text.trimEnd (Text.slice text h.start stop)
  let startLine := firstLine + Text.breaks (text.take h.start)
  { kind := h.kind
    className := h.className
    name := h.name
    isClassMethod := h.isClassMethod
    returnType := h.returnType
    parameters := match h.params with
      | some (s, e) => Parameter.parseList (Text.slice masked s e)
      | none => []
    source
    startLine
    endLine := startLine + Text.breaks source
    terminated }

/-- The first method at or after an offset, and the offset at which to look for the next. -/
def next? (text masked : Text) (firstLine : Nat) (offset : Nat) : Option (Nat × Method) :=
  match Header.find? masked offset with
  | none => none
  | some h =>
    let goOn := fun (resume : Nat) =>
      if offset < resume ∧ offset < masked.length then next? text masked firstLine resume
      else none
    if h.declarationOnly then goOn (max h.directivesEnd h.stop)
    else
      let body := Body.scan text masked h.stop text.length
      if body.bodyStarted then
        let stop := max body.stop h.stop
        some (stop, ofHeader text masked h stop body.terminated firstLine)
      else goOn h.stop
termination_by masked.length - offset
decreasing_by omega

/-- Every method from an offset on, each with the offset behind it. -/
def allFrom (text masked : Text) (firstLine : Nat) (offset : Nat) : List (Nat × Method) :=
  match next? text masked firstLine offset with
  | none => []
  | some (resume, m) =>
    (resume, m) ::
      if offset < resume ∧ offset < masked.length then allFrom text masked firstLine resume
      else []
termination_by masked.length - offset
decreasing_by omega

/-- The methods of a text in order. -/
def extract (text : Text) (firstLine : Nat) : List Method :=
  (allFrom text (Source.mask .commentsAndLiterals text) firstLine 0).map (·.2)

end Method
end PascalSurvey.Routine
