/-
PascalSurvey/Text/Basic.lean

Texts as byte lists.  Every offset, size and limit that this library reports counts the
bytes of the UTF-8 form, so a text *is* the list of those bytes: cutting, counting lines
and comparing positions are then the list operations `take`, `drop`, `length` and `count`,
and no statement has to move between characters and offsets.

The file holds the ASCII classes and letter case, comparison that ignores it, and the cuts
that look for a separator: `split`, `cut?`, `lines`.  What depends on characters beyond
ASCII stands in `Text/Utf8`, `Text/Blank` and `Text/WordChar`.
-/

namespace PascalSurvey

/-- A text, as the bytes of its UTF-8 form. -/
abbrev Text := List UInt8

/-! ### Named bytes -/

namespace Ascii

@[match_pattern] abbrev tab : UInt8 := 0x09
@[match_pattern] abbrev newline : UInt8 := 0x0A
@[match_pattern] abbrev formFeed : UInt8 := 0x0C
@[match_pattern] abbrev cr : UInt8 := 0x0D
@[match_pattern] abbrev space : UInt8 := 0x20
@[match_pattern] abbrev bang : UInt8 := 0x21
@[match_pattern] abbrev doubleQuote : UInt8 := 0x22
@[match_pattern] abbrev numberSign : UInt8 := 0x23
@[match_pattern] abbrev dollar : UInt8 := 0x24
@[match_pattern] abbrev ampersand : UInt8 := 0x26
@[match_pattern] abbrev quote : UInt8 := 0x27
@[match_pattern] abbrev lparen : UInt8 := 0x28
@[match_pattern] abbrev rparen : UInt8 := 0x29
@[match_pattern] abbrev asterisk : UInt8 := 0x2A
@[match_pattern] abbrev plus : UInt8 := 0x2B
@[match_pattern] abbrev comma : UInt8 := 0x2C
@[match_pattern] abbrev minus : UInt8 := 0x2D
@[match_pattern] abbrev dot : UInt8 := 0x2E
@[match_pattern] abbrev slash : UInt8 := 0x2F
@[match_pattern] abbrev zero : UInt8 := 0x30
@[match_pattern] abbrev colon : UInt8 := 0x3A
@[match_pattern] abbrev semicolon : UInt8 := 0x3B
@[match_pattern] abbrev less : UInt8 := 0x3C
@[match_pattern] abbrev equals : UInt8 := 0x3D
@[match_pattern] abbrev greater : UInt8 := 0x3E
@[match_pattern] abbrev question : UInt8 := 0x3F
@[match_pattern] abbrev lbracket : UInt8 := 0x5B
@[match_pattern] abbrev backslash : UInt8 := 0x5C
@[match_pattern] abbrev rbracket : UInt8 := 0x5D
@[match_pattern] abbrev underscore : UInt8 := 0x5F
@[match_pattern] abbrev lbrace : UInt8 := 0x7B
@[match_pattern] abbrev bar : UInt8 := 0x7C
@[match_pattern] abbrev rbrace : UInt8 := 0x7D

/-! ### ASCII classes -/

def isUpper (b : UInt8) : Bool := 0x41 ≤ b && b ≤ 0x5A
def isLower (b : UInt8) : Bool := 0x61 ≤ b && b ≤ 0x7A
def isLetter (b : UInt8) : Bool := isUpper b || isLower b
def isDigit (b : UInt8) : Bool := 0x30 ≤ b && b ≤ 0x39

/-- Hexadecimal digits in either case. -/
def isHexDigit (b : UInt8) : Bool :=
  isDigit b || (0x41 ≤ b && b ≤ 0x46) || (0x61 ≤ b && b ≤ 0x66)

/-- Space, tab, line feed, form feed and carriage return; the vertical tab is not one. -/
def isBlank (b : UInt8) : Bool :=
  b == space || b == tab || b == newline || b == formFeed || b == cr

/-- A byte that may begin an identifier. -/
def isIdentStart (b : UInt8) : Bool := isLetter b || b == underscore

/-- A byte that may stand inside an identifier. -/
def isIdentByte (b : UInt8) : Bool := isLetter b || isDigit b || b == underscore

def lower (b : UInt8) : UInt8 := if isUpper b then b + 0x20 else b
def upper (b : UInt8) : UInt8 := if isLower b then b - 0x20 else b

/-- The value of a hexadecimal digit; 0 for any other byte. -/
def hexValue (b : UInt8) : Nat :=
  if isDigit b then b.toNat - 0x30
  else if isUpper b then b.toNat - 0x37
  else if isLower b then b.toNat - 0x57
  else 0

end Ascii

namespace Text

/-! ### From and to other forms -/

/-- The bytes of a string. -/
def ofString (s : String) : Text := s.toUTF8.data.toList

instance : Coe String Text := ⟨ofString⟩

/-- The bytes of each string of a list. -/
def ofStrings (ss : List String) : List Text := ss.map ofString

/-- A number in decimal digits, without leading zeros. -/
def ofNat (n : Nat) : Text := (Nat.toDigits 10 n).map Char.toUInt8

/-- The number that a run of digits writes in the given base. -/
def digitsValue (base : Nat) (digits : Text) : Nat :=
  digits.foldl (fun n b => n * base + Ascii.hexValue b) 0

/-! ### Letter case

Only ASCII letters change; every other byte stays. -/

def toLower (t : Text) : Text := t.map Ascii.lower
def toUpper (t : Text) : Text := t.map Ascii.upper

/-- Equality that ignores the case of ASCII letters. -/
def eqFold (a b : Text) : Bool := toLower a == toLower b

/-- Whether a list holds `t`, ignoring the case of ASCII letters. -/
def memFold (t : Text) (ts : List Text) : Bool := ts.any (eqFold t)

/-- Appends `t` unless the list holds it, ignoring the case of ASCII letters. -/
def pushUnique (ts : List Text) (t : Text) : List Text :=
  if memFold t ts then ts else ts ++ [t]

/-- The first of each class of texts that are equal when the case of ASCII letters is
ignored, in order. -/
def dedupFold (ts : List Text) : List Text := ts.foldl pushUnique []

/-- What follows `head` in `t`, if `t` begins with `head`. -/
def after? : (head : Text) → (t : Text) → Option Text
  | [], t => some t
  | _ :: _, [] => none
  | a :: as, b :: bs => if a = b then after? as bs else none

def startsWith (t head : Text) : Bool := (after? head t).isSome

def endsWith (t tail : Text) : Bool := startsWith t.reverse tail.reverse

/-- What follows `head` in `t`, if `t` begins with `head` up to the case of ASCII letters. -/
def afterFold? (head t : Text) : Option Text :=
  if eqFold (t.take head.length) head then some (t.drop head.length) else none

/-! ### Cutting -/

/-- The bytes from `s` up to `e`. -/
def slice (t : Text) (s e : Nat) : Text := (t.drop s).take (e - s)

/-- The pieces between the bytes that satisfy `p`; there is always one more piece than
there are such bytes. -/
def splitWhere (p : UInt8 → Bool) : Text → List Text
  | [] => [[]]
  | b :: r =>
    if p b then [] :: splitWhere p r
    else match splitWhere p r with
      | [] => [[b]]
      | first :: rest => (b :: first) :: rest

def split (sep : UInt8) (t : Text) : List Text := splitWhere (· == sep) t

/-- The text before and after the first `sep`. -/
def cut? (sep : UInt8) : Text → Option (Text × Text)
  | [] => none
  | b :: r => if b = sep then some ([], r) else (cut? sep r).map fun (x, y) => (b :: x, y)

/-- The text before and after the last `sep`. -/
def cutLast? (sep : UInt8) (t : Text) : Option (Text × Text) :=
  (cut? sep t.reverse).map fun (y, x) => (x.reverse, y.reverse)

/-- The distance to the first `sep`. -/
def find? (sep : UInt8) (t : Text) : Option Nat := t.findIdx? (· == sep)

/-- Whether `needle` occurs somewhere in the text. -/
def contains (needle : Text) : Text → Bool
  | [] => needle.isEmpty
  | t@(_ :: r) => startsWith t needle || contains needle r

def join (sep : Text) (parts : List Text) : Text := sep.intercalate parts

/-- Every byte `a` becomes `b`. -/
def replaceByte (a b : UInt8) (t : Text) : Text := t.map fun x => if x = a then b else x

/-- Backslashes become slashes. -/
def forwardSlashes (t : Text) : Text := replaceByte Ascii.backslash Ascii.slash t

/-! ### Lines -/

/-- The number of line breaks. -/
def breaks (t : Text) : Nat := t.count Ascii.newline

/-- The line on which an offset stands, counted from 1. -/
def lineOf (t : Text) (offset : Nat) : Nat := breaks (t.take offset) + 1

/-- A line without the carriage return that may end it. -/
def withoutCr (line : Text) : Text :=
  if line.getLast? = some Ascii.cr then line.dropLast else line

/-- The lines of a text.  A line ends with a line feed, one carriage return before which is
dropped; nothing after the last line feed is no line, and the rest after it keeps a final
carriage return. -/
def lines (t : Text) : List Text :=
  match (split Ascii.newline t).reverse with
  | [] => []
  | [] :: whole => (whole.map withoutCr).reverse
  | rest :: whole => (rest :: whole.map withoutCr).reverse

end Text
end PascalSurvey
