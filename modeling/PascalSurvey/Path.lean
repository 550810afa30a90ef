/-
PascalSurvey/Path.lean

Paths.  A path is the text that spells it, and keeps that spelling; comparing, ordering and
taking apart go by components.  Repeated slashes, a trailing slash and inner `.` components
do not count, while a `.` at the very beginning is a component of its own.

The order of paths is that of their component lists: `a/z.pas` comes before `a b.pas`,
because the component `a` comes before the component `a b.pas`.

A path need not be UTF-8.  Where a name of a path becomes a text, to be shown or to be compared
with one, each part of it that is no character is read as U+FFFD.
-/
import PascalSurvey.Text.Utf8

namespace PascalSurvey

/-- A path, as it is spelled. -/
abbrev Path := Text

namespace Path

open Ascii

/-! ### Components -/

/-- A component of a path. -/
inductive Component where
  | root
  | current
  | parent
  | named (name : Text)
  deriving Repr, DecidableEq

/-- The spelling of a component. -/
def Component.text : Component → Text
  | .root => "/"
  | .current => "."
  | .parent => ".."
  | .named name => name

/-- The pieces of a path between slashes, each with the offset at which it ends. -/
def piecesFrom (offset : Nat) : List Text → List (Text × Nat)
  | [] => []
  | piece :: rest => (piece, offset + piece.length) :: piecesFrom (offset + piece.length + 1) rest

/-- The component that a piece is, if it is one.  Only at the beginning of a path is a single
dot a component. -/
def componentOf? (piece : Text) (stop : Nat) : Option Component :=
  if piece = [] then none
  else if piece = [dot] then if stop = 1 then some .current else none
  else if piece = [dot, dot] then some .parent
  else some (.named piece)

def isAbsolute (p : Path) : Bool := p.head? = some slash

/-- The components of a path, each with the offset at which it ends. -/
def located (p : Path) : List (Component × Nat) :=
  let body := (piecesFrom 0 (Text.split slash p)).filterMap fun (piece, stop) =>
    (componentOf? piece stop).map (·, stop)
  if isAbsolute p then (.root, 1) :: body else body

/-- The components of a path. -/
def components (p : Path) : List Component := (located p).map (·.1)

/-- Whether two spellings are the same path. -/
def same (p q : Path) : Bool := components p == components q

/-! ### Order -/

/-- The lexicographic order of byte lists. -/
def bytesLt : Text → Text → Bool
  | [], [] => false
  | [], _ :: _ => true
  | _ :: _, [] => false
  | a :: as, b :: bs => a < b || (a == b && bytesLt as bs)

def Component.rank : Component → Nat
  | .root => 0
  | .current => 1
  | .parent => 2
  | .named _ => 3

/-- The order of components; names are ordered by their bytes. -/
def Component.lt : Component → Component → Bool
  | .named a, .named b => bytesLt a b
  | a, b => a.rank < b.rank

def componentsLt : List Component → List Component → Bool
  | [], [] => false
  | [], _ :: _ => true
  | _ :: _, [] => false
  | a :: as, b :: bs => a.lt b || (a == b && componentsLt as bs)

/-- Whether a path comes no later than another. -/
def le (p q : Path) : Bool := !componentsLt (components q) (components p)

/-- Paths in order. -/
def sort (paths : List Path) : List Path := paths.mergeSort le

/-! ### Parts of a path -/

/-- The path without its last component. -/
def parent? (p : Path) : Option Path :=
  match (located p).reverse with
  | [] => none
  | (.root, _) :: _ => none
  | _ :: [] => some []
  | _ :: (_, stop) :: _ => some (p.take stop)

/-- The last component, if it is a name. -/
def fileName? (p : Path) : Option Text :=
  match (components p).getLast? with
  | some (.named name) => some name
  | _ => none

/-- A file name before and after its last dot.  A dot at the beginning does not count. -/
def splitName (name : Text) : Text × Option Text :=
  match Text.cutLast? dot name with
  | some ([], _) => (name, none)
  | some (stem, extension) => (stem, some extension)
  | none => (name, none)

def fileStem? (p : Path) : Option Text := (fileName? p).map fun n => (splitName n).1

def extension? (p : Path) : Option Text := (fileName? p).bind fun n => (splitName n).2

/-- The path as it is shown. -/
def display (p : Path) : Text := Utf8.lossy p

/-- The file name as a text. -/
def nameText? (p : Path) : Option Text := (fileName? p).map Utf8.lossy

/-- The stem of the file name as a text. -/
def stemText? (p : Path) : Option Text := (fileStem? p).map Utf8.lossy

/-- The extension of the file name as a text. -/
def extensionText? (p : Path) : Option Text := (extension? p).map Utf8.lossy

/-- The path `q` seen from the directory `p`. -/
def join (p q : Path) : Path :=
  if isAbsolute q then q
  else if p = [] ∨ p.getLast? = some slash then p ++ q
  else p ++ slash :: q

/-- The path without its extension, up to the dot before it. -/
def untilExtension (p : Path) : Path := p.take (p.length - ((extension? p).getD []).length)

/-- The path with a dot and an extension behind the stem of its file name, whatever followed
the stem; a path without a file name stays. -/
def setExtension (p : Path) (extension : Text) : Path :=
  match (located p).getLast? with
  | some (.named name, stop) =>
    let (stem, _) := splitName name
    p.take (stop - name.length + stem.length) ++ dot :: extension
  | _ => p

/-- The path with the extension of its file name replaced.  The old extension goes first, and
what is left must still end in a file name: `..pas` without its extension is the way up, and
stays `..`. -/
def withExtension (p : Path) (extension : Text) : Path :=
  setExtension (untilExtension p) extension

/-- The components of `p` below `base`. -/
def below? (base p : Path) : Option (List Component) :=
  let b := components base
  let c := components p
  if c.take b.length = b then some (c.drop b.length) else none

/-- A file as seen from a root, as a text with slashes; none if it lies outside. -/
def relativeTo? (file root : Path) : Option Text :=
  (below? root file).map fun cs => Text.join [slash] (cs.map fun c => Utf8.lossy c.text)

end Path
end PascalSurvey
