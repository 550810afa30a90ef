/-
PascalSurvey/Outline/Basic.lean

The outline of a unit or program: its name, its interface and implementation sections, the
units it uses and the types it declares.  Every text has an outline; what a text does not
have stays empty.
-/
import PascalSurvey.Outline.TypeDecl
import PascalSurvey.Outline.Uses
import PascalSurvey.Path

namespace PascalSurvey

open Ascii

/-- What the structure of a unit's text says. -/
structure Outline where
  name : Text
  /-- Whether the text is a program, a library or a package. -/
  isProgram : Bool
  /-- From behind `interface` up to `implementation`. -/
  interface : Option (Nat × Nat)
  /-- From behind `implementation` up to the last `end.` or the end. -/
  implementation : Option (Nat × Nat)
  interfaceUses : List Outline.UsesEntry
  implementationUses : List Outline.UsesEntry
  types : List Outline.TypeDecl
  lineCount : Nat
  deriving Repr

namespace Outline

/-! ### The heading -/

/-- The words that announce the name of a file. -/
def headingWords : List Text := ["unit", "program", "library", "package"]

/-- Whether a text begins with a program heading, and the name that the heading gives. -/
def heading? (t : Text) : Option (Bool × Text) := do
  let k ← headingWords.findSome? fun w => Text.matchFold? w t
  let gap := Text.blankRun (t.drop k)
  if gap = 0 then none
  else
    let n ← Source.dottedName? Text.identFold? (t.drop (k + gap))
    let rest := t.drop (k + gap + n)
    if (rest.drop (Text.blankRun rest)).head? = some semicolon then
      some (!Text.eqFold (t.take k) "unit", Text.withoutBlanks ((t.drop (k + gap)).take n))
    else none

/-- The first heading of an overlay. -/
def findHeading? (code : Text) : Option (Bool × Text) :=
  (Cursor.start code).search? fun c =>
    if Text.endsWord c.before then none else heading? c.after

/-! ### Sections -/

/-- The offsets at which `end` and a dot stand. -/
def finalEnds (code : Text) : List Nat :=
  (Cursor.start code).searchAll fun c => do
    if Text.endsWord c.before then none
    else
      let n ← Text.matchFold? "end" c.after
      let gap := Text.blankRun (c.after.drop n)
      if (c.after.drop (n + gap)).head? = some dot then some (c.offset, n + gap + 1) else none

/-- The interface and the implementation section of an overlay. -/
def sections (code : Text) : Option (Nat × Nat) × Option (Nat × Nat) :=
  let implementation := Source.findLine? "implementation" code
  let interface := (Source.findLine? "interface" code).filter fun (start, _) =>
    implementation.all fun (s, _) => start < s
  (interface.map fun (_, stop) => (stop, (implementation.map (·.1)).getD code.length),
    implementation.map fun (_, stop) =>
      (stop, ((finalEnds (code.drop stop)).getLast?.map (stop + ·)).getD code.length))

/-! ### The outline -/

/-- The outline of a text.  Without a heading the unit is named after its file. -/
def ofText (t : Text) (file : Path) : Outline :=
  let code := Source.mask .commentsAndLiterals t
  let noComments := Source.mask .comments t
  let (isProgram, name) := (findHeading? code).getD (false, (Path.stemText? file).getD [])
  let (interface, implementation) := sections code
  let uses := fun (r : Nat × Nat) => UsesEntry.within code noComments r.1 r.2
  let types := fun (r : Nat × Nat) => TypeDecl.within code r.1 r.2
  let whole := (0, code.length)
  let public_ := match interface, implementation with
    | some r, _ => some r
    | none, some _ => none
    | none, none => some whole
  { name, isProgram, interface, implementation
    interfaceUses := (public_.map uses).getD []
    implementationUses := (implementation.map uses).getD []
    types := (public_.map types).getD []
    lineCount := (Text.lines t).length }

/-- The text in which methods are looked for, and the line on which it starts: the
implementation section, or all of a text that has none. -/
def body (o : Outline) (t : Text) : Text × Nat :=
  match o.implementation with
  | some (start, stop) => (Text.slice t start stop, Text.lineOf t start)
  | none => (t, 1)

/-- Whether a declared type has one of the given ancestors, in any case. -/
def derivesFrom (o : Outline) (ancestors : List Text) : Bool :=
  o.types.any fun d => d.parent.any fun p => Text.memFold p ancestors

end Outline
end PascalSurvey
