/-
PascalSurvey/Form.lean

Text form files: the tree of components, in the order of the file, each with its depth.
Components and collection items open a level and `end` closes one.  Binary forms are not
read.
-/
import PascalSurvey.Path
import PascalSurvey.Text.Blank

namespace PascalSurvey

open Ascii

/-- A component of a form. -/
structure FormComponent where
  name : Text
  className : Text
  /-- The number of components and items around it. -/
  depth : Nat
  deriving Repr, DecidableEq

/-- A form and the unit it belongs to. -/
structure Form where
  name : Text
  className : Text
  unitName : Text
  file : Path
  components : List FormComponent
  deriving Repr, DecidableEq

/-- What reading a form file gives. -/
inductive FormReading where
  | parsed (form : Form)
  /-- A binary form. -/
  | binary
  /-- No component at all. -/
  | empty
  deriving Repr, DecidableEq

namespace Form

/-- The signature of binary forms. -/
def binarySignature : Text := "TPF0"

/-- The words that begin a component. -/
def componentWords : List Text := ["object ", "inherited ", "inline "]

/-- What a line means to the tree. -/
inductive Line where
  /-- A component, with name and class if a colon divides them. -/
  | component (parts : Option (Text × Text))
  | item
  | close
  | other
  deriving Repr, DecidableEq

def Line.ofText (line : Text) : Line :=
  let t := Text.trim line
  let lower := Text.toLower t
  match componentWords.find? (Text.startsWith lower) with
  | some word =>
    .component ((Text.cut? colon (t.drop word.length)).map fun (name, rest) =>
      (Text.trim name, (Text.words rest).head?.getD []))
  | none =>
    if lower = "item" then .item
    else if lower = "end" ∨ Text.startsWith lower "end>" ∨ Text.startsWith lower "end " then .close
    else .other

/-- The components of lines that stand at a depth. -/
def componentsFrom (depth : Nat) : List Line → List FormComponent
  | [] => []
  | .component (some (name, className)) :: rest =>
    ⟨name, className, depth⟩ :: componentsFrom (depth + 1) rest
  | .component none :: rest => componentsFrom (depth + 1) rest
  | .item :: rest => componentsFrom (depth + 1) rest
  | .close :: rest => componentsFrom (depth - 1) rest
  | .other :: rest => componentsFrom depth rest

/-- Reads a form file. -/
def read (bytes : List UInt8) (unitName : Text) (file : Path) : FormReading :=
  let bytes := Utf8.withoutMark bytes
  if Text.startsWith bytes binarySignature then .binary
  else
    let components := componentsFrom 0 ((Text.lines (Utf8.lossy bytes)).map Line.ofText)
    match components with
    | [] => .empty
    | root :: _ => .parsed ⟨root.name, root.className, unitName, file, components⟩

end Form
end PascalSurvey
