/-
PascalSurvey/Json/Writer.lean

The written form of a JSON value: no blanks, members in order, and in strings only quotes,
backslashes and control characters escaped.
-/
import PascalSurvey.Json.Value

namespace PascalSurvey.Json

open Ascii

/-- A hexadecimal digit in lower case. -/
def hexDigit (n : Nat) : UInt8 := if n < 10 then (0x30 + n).toUInt8 else (0x57 + n).toUInt8

/-- A byte of a string as it is written. -/
def escapeByte (b : UInt8) : Text :=
  if b = doubleQuote then [backslash, doubleQuote]
  else if b = backslash then [backslash, backslash]
  else if b < 0x20 then
    [backslash, 0x75, zero, zero, hexDigit (b.toNat / 16), hexDigit (b.toNat % 16)]
  else [b]

def writeString (t : Text) : Text := doubleQuote :: t.flatMap escapeByte ++ [doubleQuote]

mutual

/-- The written form of a value. -/
def write : Json → Text
  | .null => "null"
  | .bool true => "true"
  | .bool false => "false"
  | .nat n => Text.ofNat n
  | .real lexeme => lexeme
  | .str t => writeString t
  | .arr items => lbracket :: writeItems items ++ [rbracket]
  | .obj members => lbrace :: writeMembers members ++ [rbrace]

def writeItems : List Json → Text
  | [] => []
  | [v] => write v
  | v :: rest => write v ++ comma :: writeItems rest

def writeMembers : List (Text × Json) → Text
  | [] => []
  | [(k, v)] => writeString k ++ colon :: write v
  | (k, v) :: rest => writeString k ++ colon :: write v ++ comma :: writeMembers rest

end

end PascalSurvey.Json
