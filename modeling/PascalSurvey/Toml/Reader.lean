/-
PascalSurvey/Toml/Reader.lean

Reading TOML documents.
-/
import PascalSurvey.Toml.Scalar

namespace PascalSurvey.Toml

open Ascii

/-! ### Keys -/

/-- A byte of a key that is not quoted. -/
def isKeyByte (b : UInt8) : Bool := isLetter b || isDigit b || b == minus || b == underscore

/-- One part of a dotted key. -/
def simpleKey? (t : Text) : Option (Text × Text) :=
  match t with
  | b :: _ =>
    if b = doubleQuote ∨ b = quote then shortString? t
    else
      let name := t.takeWhile isKeyByte
      if name.isEmpty then none else some (name, t.drop name.length)
  | [] => none

/-- A dotted key; blanks may stand around its dots. -/
def key? (fuel : Nat) (t : Text) : Option (List Text × Text) :=
  match fuel with
  | 0 => none
  | fuel + 1 => do
    let (k, r) ← simpleKey? (skipGap t)
    match skipGap r with
    | dot :: r => (key? fuel r).map fun (ks, r) => (k :: ks, r)
    | r => some ([k], r)

/-- Arrays, inline tables and keys are at most this deep. -/
def depthLimit : Nat := 79

/-- A key of a bounded number of parts. -/
def boundedKey? (t : Text) : Option (List Text × Text) := do
  let (ks, r) ← key? (t.length + 1) t
  if ks.length ≤ depthLimit then some (ks, r) else none

/-- The parts of a key before the last, and the last. -/
def splitLast? (ks : List Text) : Option (List Text × Text) :=
  ks.getLast?.map fun k => (ks.dropLast, k)

/-! ### Values -/

/-- What follows blanks, line breaks and comments. -/
def skipSpace (fuel : Nat) (t : Text) : Text :=
  match fuel with
  | 0 => t
  | fuel + 1 =>
    let r := skipComment (skipGap t)
    match newline? r with
    | some r => skipSpace fuel r
    | none => r

def skipAll (t : Text) : Text := skipSpace (t.length + 1) t

mutual

/-- A value.  `depth` arrays and inline tables may still be opened. -/
def value? (fuel depth : Nat) (t : Text) : Option (Toml × Text) :=
  match fuel with
  | 0 => none
  | fuel + 1 =>
    match t with
    | lbracket :: r =>
      if depth = 0 then none
      else (items? fuel (depth - 1) (skipAll r)).map fun (vs, r) => (.array vs, r)
    | lbrace :: r =>
      if depth = 0 then none
      else match skipGap r with
        | rbrace :: r => some (.table .inline [], r)
        | r => (pairs? fuel (depth - 1) [] r).map fun (es, r) => (.table .inline es, r)
    | t => scalar? t

/-- The items of an array up to its closing bracket; a comma may follow the last. -/
def items? (fuel depth : Nat) (t : Text) : Option (List Toml × Text) :=
  match fuel with
  | 0 => none
  | fuel + 1 =>
    match t with
    | rbracket :: r => some ([], r)
    | t =>
      match value? fuel depth t with
      | none => none
      | some (v, r) => match skipAll r with
        | comma :: r => (items? fuel depth (skipAll r)).map fun (vs, r) => (v :: vs, r)
        | rbracket :: r => some ([v], r)
        | _ => none

/-- The pairs of an inline table up to its closing brace. -/
def pairs? (fuel depth : Nat) (es : Entries) (t : Text) : Option (Entries × Text) :=
  match fuel with
  | 0 => none
  | fuel + 1 =>
    match boundedKey? t with
    | none => none
    | some (ks, r) => match splitLast? ks, r with
      | some (path, key), equals :: r =>
        match value? fuel depth (skipGap r) with
        | none => none
        | some (v, r) => match addDotted .inline es path key v with
          | none => none
          | some es => match skipGap r with
            | comma :: r => pairs? fuel depth es r
            | rbrace :: r => some (es, r)
            | _ => none
      | _, _ => none

end

/-! ### Documents -/

/-- A document so far: its entries and the path of the table that is open. -/
structure Document where
  entries : Entries
  current : List Text

/-- The end of a line, after an optional comment. -/
def lineEnd? (t : Text) : Option Text :=
  match skipComment (skipGap t) with
  | [] => some []
  | r => newline? r

/-- Reads a header in single or double brackets. -/
def header? (t : Text) : Option ((List Text × Bool) × Text) :=
  match t with
  | lbracket :: lbracket :: r => do
    let (ks, r) ← boundedKey? r
    let r ← Text.after? "]]" r
    some ((ks, true), r)
  | lbracket :: r => do
    let (ks, r) ← boundedKey? r
    let r ← Text.after? "]" r
    some ((ks, false), r)
  | _ => none

/-- Opens the table that a header names. -/
def Document.openHeader (d : Document) (ks : List Text) (isArray : Bool) : Option Document := do
  let (path, key) ← splitLast? ks
  let opener := if isArray then openTables key else openTable key
  let entries ← descend false opener path .header d.entries
  some ⟨entries, ks⟩

/-- Adds a key and its value to the open table. -/
def Document.add (d : Document) (ks : List Text) (v : Toml) : Option Document := do
  let (path, key) ← splitLast? ks
  let entries ← descend false (fun kind es => addDotted kind es path key v) d.current .header
    d.entries
  some { d with entries }

/-- Reads one line or one pair, with the line break after it. -/
def statement? (d : Document) (t : Text) : Option (Document × Text) :=
  match skipGap t with
  | lbracket :: r => do
    let ((ks, isArray), r) ← header? (lbracket :: r)
    some (← d.openHeader ks isArray, ← lineEnd? r)
  | r =>
    match lineEnd? r with
    | some rest => some (d, rest)
    | none => do
      let (ks, r) ← boundedKey? r
      let r ← Text.after? "=" r
      let (v, r) ← value? (r.length + 1) depthLimit (skipGap r)
      some (← d.add ks v, ← lineEnd? r)

def statements? (fuel : Nat) (d : Document) (t : Text) : Option Document :=
  match fuel, t with
  | _, [] => some d
  | 0, _ => none
  | fuel + 1, t => do
    let (d, r) ← statement? d t
    statements? fuel d r

/-- The entries of a document. -/
def parse? (t : Text) : Option Entries :=
  let t := Utf8.withoutMark t
  (statements? (t.length + 1) ⟨[], []⟩ t).map (·.entries)

end PascalSurvey.Toml
