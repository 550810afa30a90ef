/-
PascalSurvey/Outline/TypeDecl.lean

Declarations of classes, records and interfaces.  A declaration begins a line; forward
declarations, class references and procedural types (`class of`, `of object`) are none.
-/
import PascalSurvey.Source.Keyword
import PascalSurvey.Text.Blank

namespace PascalSurvey.Outline

open Ascii

/-- The kinds of declared types. -/
inductive TypeKind where
  | class_
  | record
  | interface
  deriving Repr, DecidableEq

/-- A declared type. -/
structure TypeDecl where
  name : Text
  kind : TypeKind
  /-- The first ancestor in parentheses. -/
  parent : Option Text
  /-- The line of the name. -/
  line : Nat
  deriving Repr, DecidableEq

namespace TypeDecl

/-- The words that begin the definition of a type. -/
def kindWords : List Text := ["class", "record", "interface", "dispinterface"]

/-- The kind that a word announces.  Dispatch interfaces are interfaces. -/
def kindOf (word : Text) : TypeKind :=
  if Text.eqFold word "class" then .class_
  else if Text.eqFold word "record" then .record
  else .interface

/-- The length of type parameters at the head of a text; 0 if there are none. -/
def typeParameters (t : Text) : Nat :=
  match t with
  | less :: r => match Text.find? greater r with
    | some n => n + 2
    | none => 0
  | _ => 0

/-- The length of `packed` and the blanks after it; 0 if it does not stand there. -/
def packedRun (t : Text) : Nat :=
  match Text.matchFold? "packed" t with
  | some n =>
    let gap := Text.blankRun (t.drop n)
    if gap = 0 then 0 else n + gap
  | none => 0

/-- The opening of a declaration at the start of a line: the offset and length of the name,
the kind word, and the length of the whole. -/
def opening? (t : Text) : Option (Nat × Nat × Text × Nat) := do
  let lead := Source.indent t
  let n ← Text.identFold? (t.drop lead)
  let nameLength := n + typeParameters (t.drop (lead + n))
  let afterName := lead + nameLength
  let toEquals := afterName + Text.blankRun (t.drop afterName)
  match t.drop toEquals with
  | equals :: r =>
    let gap := Text.blankRun r
    let toKind := toEquals + 1 + gap + packedRun (r.drop gap)
    let k ← kindWords.findSome? fun w => Text.matchWord? w (t.drop toKind)
    some (lead, nameLength, (t.drop toKind).take k, toKind + k)
  | _ => none

/-- Whether what follows the kind word says that nothing is declared here. -/
def isReference (rest : Text) : Bool :=
  Text.startsWith rest ";" || Text.startsWith (Text.toLower rest) "of " ||
  Text.startsWith (Text.toLower rest) "of\n"

/-- The first ancestor after the kind word.  A helper has none. -/
def parentOf? (rest : Text) : Option Text :=
  if Text.startsWith (Text.toLower rest) "helper" then none
  else match rest with
    | lparen :: inner =>
      let p := Text.trim (inner.takeWhile fun b => b != comma && b != rparen)
      if p.isEmpty then none else some p
    | _ => none

/-- The declarations between two offsets of an overlay. -/
def within (code : Text) (start stop : Nat) : List TypeDecl :=
  let found := (Cursor.start (Text.slice code start stop)).searchAll fun c =>
    if Source.atLineStart c then
      (opening? c.after).map fun (nameStart, nameLength, word, size) =>
        let rest := Text.trimStart (c.after.drop size)
        let decl :=
          if isReference rest then none
          else some {
            name := Text.withoutBlanks ((c.after.drop nameStart).take nameLength)
            kind := kindOf word
            parent := parentOf? rest
            line := Text.lineOf code (start + c.offset + nameStart) : TypeDecl }
        (decl, size)
    else none
  found.filterMap id

end TypeDecl
end PascalSurvey.Outline
