/-
PascalSurvey/Xml/Attribute.lean

The attributes of a start tag.  A reading goes through the text of the tag behind its name
and gives, one after another, attributes and failures; a failure says where the reading goes
on, if it does.  `wellFormed` is what the tree takes: all attributes, with failures left out
and repeated keys dropped.  `declared` is what namespaces take: the attributes before the
first failure, repeated or not.
-/
import PascalSurvey.Text.Basic

namespace PascalSurvey.Xml

open Ascii

/-- Space, tab, line feed or carriage return. -/
def isSpace (b : UInt8) : Bool := b == space || b == tab || b == newline || b == cr

/-- An attribute, its value as written. -/
structure Attribute where
  key : Text
  value : Text
  deriving Repr, DecidableEq

/-- What a reading finds first. -/
inductive Found where
  /-- Nothing more. -/
  | nothing
  /-- An attribute, what follows it, and what follows its equals sign. -/
  | attribute (a : Attribute) (rest afterEquals : Text)
  /-- A failure of the given key, if a key with an equals sign was read, and the text at which
  the reading goes on, if it does; last what follows the equals sign. -/
  | failure (key : Option Text) (rest : Option Text) (afterEquals : Text)
  deriving Repr, DecidableEq

/-- The text from the first space on, if there is one. -/
def fromSpace? (t : Text) : Option Text :=
  match t.dropWhile (!isSpace ·) with
  | [] => none
  | rest => some rest

/-- The value behind an equals sign, for a key. -/
def readValue (key afterEquals : Text) : Found :=
  match afterEquals.dropWhile isSpace with
  | [] => .failure (some key) none afterEquals
  | q :: r =>
    if q = quote ∨ q = doubleQuote then
      match Text.cut? q r with
      | some (value, rest) => .attribute ⟨key, value⟩ rest afterEquals
      | none => .failure (some key) none afterEquals
    else .failure (some key) (fromSpace? (q :: r)) afterEquals

/-- The first attribute or failure of a text.  A key has at least one byte, whichever it is,
and ends before an equals sign or a space. -/
def readFirst (t : Text) : Found :=
  match t.dropWhile isSpace with
  | [] => .nothing
  | k :: r =>
    let key := k :: r.takeWhile fun b => b != equals && !isSpace b
    match (r.drop (key.length - 1)).dropWhile isSpace with
    | [] => .failure none none []
    | b :: rest => if b = equals then readValue key rest else .failure none (some (b :: rest)) []

/-- Attributes of a text without repeated keys.  `seen` holds the keys before.  A repeated
attribute is dropped, and the reading goes on at the first space behind its equals sign. -/
def wellFormedFrom (fuel : Nat) (seen : List Text) (t : Text) : List Attribute :=
  match fuel with
  | 0 => []
  | fuel + 1 => match readFirst t with
    | .nothing => []
    | .attribute a rest afterEquals =>
      if seen.contains a.key then
        match fromSpace? afterEquals with
        | some r => wellFormedFrom fuel seen r
        | none => []
      else a :: wellFormedFrom fuel (a.key :: seen) rest
    | .failure none rest _ => match rest with
      | some r => wellFormedFrom fuel seen r
      | none => []
    | .failure (some key) rest afterEquals =>
      if seen.contains key then
        match fromSpace? afterEquals with
        | some r => wellFormedFrom fuel seen r
        | none => []
      else match rest with
        | some r => wellFormedFrom fuel (key :: seen) r
        | none => []

/-- The attributes of a text: failures left out, repeated keys dropped. -/
def wellFormed (t : Text) : List Attribute := wellFormedFrom (t.length + 1) [] t

def declaredFrom (fuel : Nat) (t : Text) : List Attribute :=
  match fuel with
  | 0 => []
  | fuel + 1 => match readFirst t with
    | .attribute a rest _ => a :: declaredFrom fuel rest
    | _ => []

/-- The attributes of a text before the first failure. -/
def declared (t : Text) : List Attribute := declaredFrom (t.length + 1) t

end PascalSurvey.Xml
