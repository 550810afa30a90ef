/-
PascalSurvey/Toml/Scalar.lean

Strings, numbers and dates of TOML.  A reader takes a text and gives a value with the text
that is left, or nothing.
-/
import PascalSurvey.Bound
import PascalSurvey.Text.Utf8
import PascalSurvey.Toml.Value

namespace PascalSurvey.Toml

open Ascii

/-! ### White space -/

def isGap (b : UInt8) : Bool := b == space || b == tab

def skipGap (t : Text) : Text := t.dropWhile isGap

/-- A line feed, or a carriage return and a line feed. -/
def newline? : Text → Option Text
  | newline :: r => some r
  | cr :: newline :: r => some r
  | _ => none

/-- Whether a byte may stand in a comment or a string: a tab, or no control character. -/
def isVisible (b : UInt8) : Bool := b == tab || (0x20 ≤ b && b != 0x7F)

/-- What follows a comment, which ends before its line break. -/
def skipComment (t : Text) : Text :=
  match t with
  | numberSign :: r => r.dropWhile isVisible
  | _ => t

/-! ### Strings -/

/-- Exactly `n` hexadecimal digits that name a character. -/
def codeEscape? (n : Nat) (t : Text) : Option (Text × Text) :=
  let digits := t.take n
  let code := Text.digitsValue 16 digits
  if digits.length = n ∧ digits.all isHexDigit ∧ Utf8.isScalar code then
    some (Utf8.encode code, t.drop n)
  else none

/-- The letters that name a character after a backslash, each with that character. -/
def namedEscapes : List (UInt8 × UInt8) :=
  [(0x62, 0x08), (0x74, tab), (0x6E, newline), (0x66, formFeed), (0x72, cr),
    (doubleQuote, doubleQuote), (backslash, backslash)]

/-- The character that the text after a backslash names. -/
def escape? : Text → Option (Text × Text)
  | [] => none
  | b :: r =>
    if b = 0x75 then codeEscape? 4 r
    else if b = 0x55 then codeEscape? 8 r
    else (namedEscapes.lookup b).map fun c => ([c], r)

/-- A string in double quotes after its opening quote, with what was read in reverse. -/
def basicTail? (fuel : Nat) (acc t : Text) : Option (Text × Text) :=
  match fuel, t with
  | 0, _ => none
  | _, [] => none
  | fuel + 1, b :: r =>
    if b = doubleQuote then some (acc.reverse, r)
    else if b = backslash then do
      let (c, r) ← escape? r
      basicTail? fuel (c.reverse ++ acc) r
    else if isVisible b then basicTail? fuel (b :: acc) r
    else none

/-- A string in single quotes after its opening quote. -/
def literalTail? (t : Text) : Option (Text × Text) :=
  let body := t.takeWhile fun b => isVisible b && b != quote
  match t.drop body.length with
  | quote :: r => some (body, r)
  | _ => none

/-- The quotes at the head of a text, if they close a string over several lines: the quotes
that still belong to the string, at most two, and the rest. -/
def closingQuotes? (q : UInt8) (t : Text) : Option (Text × Text) :=
  let run := (t.takeWhile (· == q)).length
  if 3 ≤ run then
    let inner := min (run - 3) 2
    some (List.replicate inner q, t.drop (inner + 3))
  else none

/-- What follows blanks and line breaks. -/
def skipLines (fuel : Nat) (t : Text) : Text :=
  match fuel with
  | 0 => t
  | fuel + 1 => match newline? (skipGap t) with
    | some r => skipLines fuel r
    | none => skipGap t

/-- A line break after a backslash and blanks; it is skipped with all blanks after it. -/
def joinedLine? (t : Text) : Option Text :=
  (newline? (skipGap t)).map fun r => skipLines (r.length + 1) r

/-- A string in triple double quotes after its opening. -/
def longBasicTail? (fuel : Nat) (acc t : Text) : Option (Text × Text) :=
  match fuel, t with
  | 0, _ => none
  | _, [] => none
  | fuel + 1, b :: r =>
    match closingQuotes? doubleQuote t with
    | some (inner, rest) => some (acc.reverse ++ inner, rest)
    | none =>
      if b = backslash then
        match joinedLine? r with
        | some rest => longBasicTail? fuel acc rest
        | none => do
          let (c, rest) ← escape? r
          longBasicTail? fuel (c.reverse ++ acc) rest
      else if isVisible b then longBasicTail? fuel (b :: acc) r
      else do
        let rest ← newline? t
        longBasicTail? fuel (newline :: acc) rest

/-- A string in triple single quotes after its opening. -/
def longLiteralTail? (fuel : Nat) (acc t : Text) : Option (Text × Text) :=
  match fuel, t with
  | 0, _ => none
  | _, [] => none
  | fuel + 1, b :: r =>
    match closingQuotes? quote t with
    | some (inner, rest) => some (acc.reverse ++ inner, rest)
    | none =>
      if isVisible b then longLiteralTail? fuel (b :: acc) r
      else do
        let rest ← newline? t
        longLiteralTail? fuel (newline :: acc) rest

/-- A string on one line. -/
def shortString? (t : Text) : Option (Text × Text) :=
  match t with
  | doubleQuote :: r => basicTail? (r.length + 1) [] r
  | quote :: r => literalTail? r
  | _ => none

/-- Any string.  A line break right after triple quotes is no part of it. -/
def string? (t : Text) : Option (Text × Text) :=
  match t with
  | doubleQuote :: doubleQuote :: doubleQuote :: r =>
    longBasicTail? (r.length + 1) [] ((newline? r).getD r)
  | quote :: quote :: quote :: r => longLiteralTail? (r.length + 1) [] ((newline? r).getD r)
  | _ => shortString? t

/-! ### Numbers -/

/-- Digits with single underscores between them; the result has no underscores.  `isDigit_`
says which bytes are digits. -/
def digitRun? (isDigit_ : UInt8 → Bool) (t : Text) : Option (Text × Text) :=
  let run := t.takeWhile fun b => isDigit_ b || b == underscore
  let rec ok : Text → Bool
    | [] => false
    | [b] => isDigit_ b
    | b :: c :: r => (isDigit_ b || (b == underscore && isDigit_ c)) && ok (c :: r)
  if run.head?.any isDigit_ && ok run then
    some (run.filter (· != underscore), t.drop run.length)
  else none

/-- Decimal digits without a leading zero. -/
def decimal? (t : Text) : Option (Text × Text) := do
  let (ds, r) ← digitRun? isDigit t
  if ds.head? = some zero ∧ 1 < ds.length then none else some (ds, r)

/-- A sign, if there is one. -/
def sign (t : Text) : Option UInt8 × Text :=
  match t with
  | b :: r => if b = plus ∨ b = minus then (some b, r) else (none, t)
  | [] => (none, t)

def isOctal (b : UInt8) : Bool := 0x30 ≤ b && b ≤ 0x37
def isBinary (b : UInt8) : Bool := b == 0x30 || b == 0x31

/-- An integer of 64 bits. -/
def fits (n : Int) : Bool := -(Bound.signed64 : Int) ≤ n && n < (Bound.signed64 : Int)

def integer? (t : Text) : Option (Toml × Text) := do
  let (n, r) ←
    match Text.after? "0x" t with
    | some r => (digitRun? isHexDigit r).map fun (ds, r) => ((Text.digitsValue 16 ds : Int), r)
    | none => match Text.after? "0o" t with
      | some r => (digitRun? isOctal r).map fun (ds, r) => ((Text.digitsValue 8 ds : Int), r)
      | none => match Text.after? "0b" t with
        | some r => (digitRun? isBinary r).map fun (ds, r) => ((Text.digitsValue 2 ds : Int), r)
        | none =>
          let (s, r) := sign t
          (decimal? r).map fun (ds, r) =>
            let n : Int := Text.digitsValue 10 ds
            (if s = some minus then -n else n, r)
  if fits n then some (.integer n, r) else none

/-- A fraction, if there is a point. -/
def fraction? (t : Text) : Option (Text × Text) :=
  match t with
  | dot :: r => digitRun? isDigit r
  | _ => some ([], t)

/-- An exponent, if there is one. -/
def exponent? (t : Text) : Option (Int × Text) :=
  match t with
  | e :: r =>
    if lower e = 0x65 then
      let (s, r) := sign r
      (digitRun? isDigit r).map fun (ds, r) =>
        let n : Int := Text.digitsValue 10 ds
        (if s = some minus then -n else n, r)
    else some (0, t)
  | [] => some (0, t)

/-- The least number that is too large for a double: half a unit above the largest one. -/
def doubleBound : Nat := Nat.pow 2 1024 - Nat.pow 2 970

/-- Whether `digits` times ten to the `exponent` is too large for a double. -/
def overflows (digits : Text) (exponent : Int) : Bool :=
  let m := Text.digitsValue 10 digits
  if m = 0 then false
  else if 400 < exponent then true
  else if exponent < -(digits.length + 400 : Int) then false
  else if 0 ≤ exponent then doubleBound ≤ m * Nat.pow 10 exponent.toNat
  else doubleBound * Nat.pow 10 (-exponent).toNat ≤ m

def float? (t : Text) : Option (Toml × Text) :=
  let (s, r) := sign t
  match Text.after? "inf" r <|> Text.after? "nan" r with
  | some r => some (.float, r)
  | none => do
    let (int, r₁) ← decimal? r
    let (frac, r₂) ← fraction? r₁
    let (exp, r₃) ← exponent? r₂
    if r₃.length = r₁.length then none
    else if s != some minus && overflows (int ++ frac) (exp - frac.length) then none
    else some (.float, r₃)

/-! ### Dates -/

/-- Exactly `n` digits with a value in a range. -/
def field? (n lo hi : Nat) (t : Text) : Option (Nat × Text) :=
  let ds := t.take n
  let v := Text.digitsValue 10 ds
  if ds.length = n ∧ ds.all isDigit ∧ lo ≤ v ∧ v ≤ hi then some (v, t.drop n) else none

def isLeapYear (y : Nat) : Bool := y % 4 == 0 && (y % 100 != 0 || y % 400 == 0)

def daysIn (year month : Nat) : Nat :=
  if month = 2 then if isLeapYear year then 29 else 28
  else if month = 4 ∨ month = 6 ∨ month = 9 ∨ month = 11 then 30
  else 31

def day? (t : Text) : Option Text := do
  let (year, r) ← field? 4 0 9999 t
  let (month, r) ← field? 2 1 12 (← Text.after? "-" r)
  let (day, r) ← field? 2 1 31 (← Text.after? "-" r)
  if day ≤ daysIn year month then some r else none

/-- The fraction of a second, if there is one. -/
def secondFraction (t : Text) : Text :=
  match t with
  | dot :: r => match r.dropWhile isDigit with
    | rest => if rest.length = r.length then t else rest
  | _ => t

def time? (t : Text) : Option Text := do
  let (_, r) ← field? 2 0 23 t
  let (_, r) ← field? 2 0 59 (← Text.after? ":" r)
  let (_, r) ← field? 2 0 60 (← Text.after? ":" r)
  some (secondFraction r)

/-- An offset from universal time, if there is one. -/
def zone? (t : Text) : Option Text :=
  match t with
  | b :: r =>
    if lower b = 0x7A then some r
    else if b = plus ∨ b = minus then do
      let (_, r) ← field? 2 0 23 r
      let (_, r) ← field? 2 0 59 (← Text.after? ":" r)
      some r
    else some t
  | [] => some t

/-- A time of a day, with an optional offset, after its separator. -/
def timeOfDay? (t : Text) : Option Text :=
  match t with
  | b :: r => if lower b = 0x74 ∨ b = space then do zone? (← time? r) else none
  | [] => none

def date? (t : Text) : Option (Toml × Text) :=
  match day? t with
  | some r => some (.date, (timeOfDay? r).getD r)
  | none => (time? t).map (.date, ·)

/-! ### Scalars -/

/-- A value that is neither an array nor a table. -/
def scalar? (t : Text) : Option (Toml × Text) :=
  match t with
  | [] => none
  | b :: _ =>
    if b = doubleQuote ∨ b = quote then (string? t).map fun (s, r) => (.string s, r)
    else if isDigit b ∨ b = plus ∨ b = minus then date? t <|> float? t <|> integer? t
    else
      match Text.after? "true" t with
      | some r => some (.boolean true, r)
      | none => match Text.after? "false" t with
        | some r => some (.boolean false, r)
        | none => (Text.after? "inf" t <|> Text.after? "nan" t).map (.float, ·)

end PascalSurvey.Toml
