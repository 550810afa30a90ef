/-
PascalSurvey/Toml/Writer.lean

Writing TOML values.  A string takes the plainest form in which it needs no escapes: double
quotes, else single quotes, else triple double quotes, else triple single quotes; one that
needs escapes in all of them is written with escapes.  An array of more than one item has one
item on a line.
-/
import PascalSurvey.Json.Writer
import PascalSurvey.Text.Basic

namespace PascalSurvey.Toml

open Ascii

/-! ### What a string holds -/

/-- The longest run of a byte. -/
def longestRun (q : UInt8) (t : Text) : Nat :=
  (t.foldl (fun (best, run) b => if b = q then (max best (run + 1), run + 1) else (best, 0))
    (0, 0)).1

/-- Whether a byte can only be written as an escape: a control character that is neither a tab
nor a line feed. -/
def needsEscape (b : UInt8) : Bool := (b < 0x20 && b != tab && b != newline) || b == 0x7F

/-- The forms of a string. -/
inductive StringForm where
  | basic
  | literal
  | longBasic
  | longLiteral
  deriving Repr, DecidableEq

/-- The form in which a string is written. -/
def formOf (t : Text) : StringForm :=
  let codes := t.any needsEscape
  let slashes := t.any (· == backslash)
  let breaks := t.any (· == newline)
  let doubles := longestRun doubleQuote t
  let singles := longestRun quote t
  if !codes && !slashes && doubles = 0 && !breaks then .basic
  else if !codes && singles = 0 && !breaks then .literal
  else if !codes && !slashes && doubles ≤ 2 then .longBasic
  else if !codes && singles ≤ 2 then .longLiteral
  else if breaks then .longBasic
  else .basic

/-! ### Strings -/

def upperHex (n : Nat) : UInt8 := upper (Json.hexDigit n)

/-- A byte in double quotes; `long` says that the quotes are triple. -/
def escapeByte (long : Bool) (b : UInt8) : Text :=
  if b = 0x08 then "\\b"
  else if b = tab then "\\t"
  else if b = newline then if long then [newline] else "\\n"
  else if b = formFeed then "\\f"
  else if b = cr then "\\r"
  else if b = backslash then "\\\\"
  else if needsEscape b then
    Text.ofString "\\u00" ++ [upperHex (b.toNat / 16), upperHex (b.toNat % 16)]
  else [b]

/-- The inside of a string in double quotes.  In triple quotes two double quotes in a row may
stand as they are; `run` counts those before. -/
def escaped (long : Bool) (run : Nat) : Text → Text
  | [] => []
  | b :: r =>
    if b = doubleQuote then
      if run < (if long then 2 else 0) then b :: escaped long (run + 1) r
      else backslash :: b :: escaped long 0 r
    else
      let e := escapeByte long b
      e ++ escaped long 0 r

/-- A line break that opens a string over several lines. -/
def openingBreak (t : Text) : Text := if t.any (· == newline) then [newline] else []

def writeString (t : Text) : Text :=
  match formOf t with
  | .basic => doubleQuote :: escaped false 0 t ++ [doubleQuote]
  | .literal => quote :: t ++ [quote]
  | .longBasic =>
    List.replicate 3 doubleQuote ++ openingBreak t ++ escaped true 0 t ++
      List.replicate 3 doubleQuote
  | .longLiteral => List.replicate 3 quote ++ openingBreak t ++ t ++ List.replicate 3 quote

/-! ### Other values -/

def writeBool (b : Bool) : Text := if b then "true" else "false"

/-- An array of strings. -/
def writeStrings : List Text → Text
  | [] => "[]"
  | [t] => lbracket :: writeString t ++ [rbracket]
  | ts => Text.ofString "[\n" ++
      ts.flatMap (fun t => Text.ofString "    " ++ writeString t ++ Text.ofString ",\n") ++ [rbracket]

/-- A line with a key and a written value. -/
def writePair (key value : Text) : Text := key ++ Text.ofString " = " ++ value ++ [newline]

/-- A line for a value that may be missing. -/
def writeOption {α : Type} (key : Text) (write : α → Text) : Option α → Text
  | some a => writePair key (write a)
  | none => []

end PascalSurvey.Toml
