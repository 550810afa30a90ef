/-
PascalSurvey/Json/Reader.lean

Reading JSON.  A reader takes a text and gives a value with the text that is left, or
nothing.  The readers of values call each other on what is left, so a bound on the number
of nested calls makes them total; the length of the text is always enough, because every
value takes a byte.

A string may name a surrogate by an escape without its partner.  Such a string is read, with
the surrogate in three bytes, and is then no well-formed text; whoever needs a text has to
ask for one.
-/
import PascalSurvey.Json.Value
import PascalSurvey.Text.Utf8

namespace PascalSurvey.Json

open Ascii

/-- Space, tab, line feed or carriage return. -/
def isGap (b : UInt8) : Bool := b == space || b == tab || b == newline || b == cr

def skipGap (t : Text) : Text := t.dropWhile isGap

/-! ### Strings -/

/-- Four hexadecimal digits. -/
def hex4? : Text → Option (Nat × Text)
  | a :: b :: c :: d :: r =>
    if [a, b, c, d].all isHexDigit then some (Text.digitsValue 16 [a, b, c, d], r) else none
  | _ => none

def isHighSurrogate (n : Nat) : Bool := 0xD800 ≤ n && n < 0xDC00
def isLowSurrogate (n : Nat) : Bool := 0xDC00 ≤ n && n < 0xE000

/-- The character that an escape with a leading `u` names.  A high surrogate takes the low
one that follows it. -/
def unicodeEscape? (t : Text) : Option (Text × Text) := do
  let (hi, r) ← hex4? t
  let pair := do
    let (lo, r) ← hex4? (← Text.after? "\\u" r)
    if isHighSurrogate hi && isLowSurrogate lo then
      some (Utf8.encode (0x10000 + (hi - 0xD800) * 1024 + (lo - 0xDC00)), r)
    else none
  some (pair.getD (Utf8.encode hi, r))

/-- The letters that name a character after a backslash, each with that character. -/
def namedEscapes : List (UInt8 × UInt8) :=
  [(doubleQuote, doubleQuote), (backslash, backslash), (slash, slash), (0x62, 0x08),
    (0x66, formFeed), (0x6E, newline), (0x72, cr), (0x74, tab)]

/-- The character that the text after a backslash names. -/
def escape? : Text → Option (Text × Text)
  | [] => none
  | b :: r =>
    if b = 0x75 then unicodeEscape? r else (namedEscapes.lookup b).map fun c => ([c], r)

/-- The rest of a string after its opening quote, with what was read so far in reverse. -/
def stringTail? (fuel : Nat) (acc : Text) (t : Text) : Option (Text × Text) :=
  match fuel, t with
  | 0, _ => none
  | _, [] => none
  | fuel + 1, b :: r =>
    if b = doubleQuote then some (acc.reverse, r)
    else if b = backslash then do
      let (c, r) ← escape? r
      stringTail? fuel (c.reverse ++ acc) r
    else if b < 0x20 then none
    else stringTail? fuel (b :: acc) r

def string? (t : Text) : Option (Text × Text) :=
  match t with
  | doubleQuote :: r => stringTail? (r.length + 1) [] r
  | _ => none

/-! ### Numbers -/

/-- A run of at least one digit. -/
def digits? (t : Text) : Option (Text × Text) :=
  match t.span isDigit with
  | ([], _) => none
  | (ds, r) => some (ds, r)

/-- A run of digits that begins with a zero only if it is that zero. -/
def integer? (t : Text) : Option (Text × Text) :=
  match t with
  | zero :: r => match r with
    | b :: _ => if isDigit b then none else some ([zero], r)
    | [] => some ([zero], r)
  | _ => digits? t

/-- A point and the digits after it, if there is a point. -/
def fraction? (t : Text) : Option (Text × Text) :=
  match t with
  | dot :: r => (digits? r).map fun (ds, r) => (dot :: ds, r)
  | _ => some ([], t)

/-- An exponent, if there is one. -/
def exponent? (t : Text) : Option (Text × Text) :=
  match t with
  | e :: r =>
    if Ascii.lower e = 0x65 then
      match r with
      | s :: r₂ =>
        if s = plus ∨ s = minus then (digits? r₂).map fun (ds, r) => (e :: s :: ds, r)
        else (digits? r).map fun (ds, r) => (e :: ds, r)
      | [] => none
    else some ([], t)
  | [] => some ([], t)

def number? (t : Text) : Option (Json × Text) := do
  let (sign, r) := match t with
    | minus :: r => ([minus], r)
    | _ => ([], t)
  let (int, r) ← integer? r
  let (frac, r) ← fraction? r
  let (exp, r) ← exponent? r
  if sign.isEmpty ∧ frac.isEmpty ∧ exp.isEmpty then
    some (.nat (Text.digitsValue 10 int), r)
  else some (.real (sign ++ int ++ frac ++ exp), r)

/-! ### Values -/

mutual

/-- A value after optional blanks. -/
def value? : Nat → Text → Option (Json × Text)
  | 0, _ => none
  | fuel + 1, t =>
    match skipGap t with
    | lbrace :: r => match skipGap r with
      | rbrace :: r => some (.obj [], r)
      | r => (members? fuel r).map fun (ms, r) => (.obj ms, r)
    | lbracket :: r => match skipGap r with
      | rbracket :: r => some (.arr [], r)
      | r => (items? fuel r).map fun (vs, r) => (.arr vs, r)
    | t =>
      match t with
      | doubleQuote :: _ => (string? t).map fun (s, r) => (.str s, r)
      | _ =>
        match Text.after? "null" t with
        | some r => some (.null, r)
        | none => match Text.after? "true" t with
          | some r => some (.bool true, r)
          | none => match Text.after? "false" t with
            | some r => some (.bool false, r)
            | none => number? t

/-- The items of an array up to its closing bracket. -/
def items? : Nat → Text → Option (List Json × Text)
  | 0, _ => none
  | fuel + 1, t =>
    match value? fuel t with
    | none => none
    | some (v, r) => match skipGap r with
      | comma :: r => (items? fuel r).map fun (vs, r) => (v :: vs, r)
      | rbracket :: r => some ([v], r)
      | _ => none

/-- The members of an object up to its closing brace. -/
def members? : Nat → Text → Option (List (Text × Json) × Text)
  | 0, _ => none
  | fuel + 1, t =>
    match string? (skipGap t) with
    | none => none
    | some (k, r) => match skipGap r with
      | colon :: r => match value? fuel r with
        | none => none
        | some (v, r) => match skipGap r with
          | comma :: r => (members? fuel r).map fun (ms, r) => ((k, v) :: ms, r)
          | rbrace :: r => some ([(k, v)], r)
          | _ => none
      | _ => none

end

/-- The value that a whole text writes. -/
def parse? (t : Text) : Option Json :=
  match value? (t.length + 1) t with
  | some (v, r) => if (skipGap r).isEmpty then some v else none
  | none => none

end PascalSurvey.Json
