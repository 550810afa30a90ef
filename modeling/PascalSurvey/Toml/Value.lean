/-
PascalSurvey/Toml/Value.lean

TOML values and the rules for putting a document together.  A table remembers how it came to
be, because that decides what may still be added to it: a table with a header of its own may
not get another, a table that dotted keys made may only be extended by dotted keys, and an
inline table is complete.
-/
import PascalSurvey.Text.Basic

namespace PascalSurvey

/-- How a table came to be. -/
inductive Toml.TableKind where
  /-- By its own header, or as the document itself. -/
  | header
  /-- As a part of the name in the header of another table. -/
  | implied
  /-- By a dotted key. -/
  | dotted
  /-- In braces. -/
  | inline
  deriving Repr, DecidableEq

/-- A TOML value.  Of floats and dates only the kind is kept. -/
inductive Toml where
  | string (t : Text)
  | integer (n : Int)
  | boolean (b : Bool)
  | float
  | date
  | array (items : List Toml)
  | table (kind : Toml.TableKind) (entries : List (Text × Toml))
  /-- Tables with the same double-bracket header. -/
  | tables (items : List Toml)
  deriving Repr, Inhabited

namespace Toml

/-- The entries of a table. -/
abbrev Entries := List (Text × Toml)

/-- Replaces the value of a key, or adds the key at the end. -/
def Entries.set (es : Entries) (key : Text) (v : Toml) : Entries :=
  if es.any (·.1 == key) then es.map fun (k, w) => if k == key then (k, v) else (k, w)
  else es ++ [(key, v)]

/-- Changes the table under a path of keys, making the tables on the way.  `byDots` says that
the path belongs to a dotted key; otherwise it belongs to a header.  The change gets the kind
of the table it changes. -/
def descend (byDots : Bool) (change : TableKind → Entries → Option Entries) :
    (path : List Text) → TableKind → Entries → Option Entries
  | [], kind, es => change kind es
  | k :: path, _, es =>
    match es.lookup k with
    | none =>
      let kind := if byDots then TableKind.dotted else .implied
      (descend byDots change path kind []).map fun inner => es.set k (.table kind inner)
    | some (.table .inline _) => none
    | some (.table kind inner) =>
      if byDots && kind == .header then none
      else (descend byDots change path kind inner).map fun inner => es.set k (.table kind inner)
    | some (.tables items) =>
      match items.getLast? with
      | some (.table kind inner) =>
        (descend byDots change path kind inner).map fun inner =>
          es.set k (.tables (items.dropLast ++ [.table kind inner]))
      | _ => none
    | some _ => none

/-- Adds a new key to a table.  A table that a dotted key reaches must have been made by
dotted keys, and only such a table may be reached so. -/
def addKey (reachedByDots : Bool) (key : Text) (v : Toml) (kind : TableKind) (es : Entries) :
    Option Entries :=
  if (kind == .dotted) != reachedByDots then none
  else if es.any (·.1 == key) then none
  else some (es ++ [(key, v)])

/-- Adds a value under a dotted key. -/
def addDotted (kind : TableKind) (es : Entries) (path : List Text) (key : Text) (v : Toml) :
    Option Entries :=
  descend true (addKey (!path.isEmpty) key v) path kind es

/-- Opens the table of a header. -/
def openTable (key : Text) (_kind : TableKind) (es : Entries) : Option Entries :=
  match es.lookup key with
  | none => some (es ++ [(key, .table .header [])])
  | some (.table .implied inner) => some (es.set key (.table .header inner))
  | some _ => none

/-- Opens another table of a double-bracket header. -/
def openTables (key : Text) (_kind : TableKind) (es : Entries) : Option Entries :=
  match es.lookup key with
  | none => some (es ++ [(key, .tables [.table .header []])])
  | some (.tables items) => some (es.set key (.tables (items ++ [.table .header []])))
  | some _ => none

end Toml
end PascalSurvey
