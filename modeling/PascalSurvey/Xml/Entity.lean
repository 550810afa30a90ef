/-
PascalSurvey/Xml/Entity.lean

Entities and character references in texts and attribute values.  Only the five predefined
entities have a meaning.
-/
import PascalSurvey.Bound
import PascalSurvey.Text.Utf8
import PascalSurvey.Xml.Error

namespace PascalSurvey.Xml

open Ascii

/-! ### Character references -/

/-- The value of a digit in a base up to 16. -/
def digitValue? (base : Nat) (b : UInt8) : Option Nat :=
  if isHexDigit b ∧ hexValue b < base then some (hexValue b) else none

/-- Reads digits after a value; the value stays below 2^32. -/
def readDigits (base value : Nat) : Text → Except CharRefError Nat
  | [] => .ok value
  | b :: r => match digitValue? base b with
    | none => .error .invalidDigit
    | some d =>
      if value * base + d < Bound.word32 then readDigits base (value * base + d) r
      else .error .tooLarge

/-- The number that a reference writes without a sign. -/
def readNumber (base : Nat) (t : Text) : Except CharRefError Nat :=
  match t with
  | [] => .error .empty
  | b :: _ => if b = plus ∨ b = minus then .error .sign else readDigits base 0 t

/-- The character that a reference names, given what stands after `#`. -/
def charRef (t : Text) : Except CharRefError Text := do
  let code ← match t with
    | b :: r => if b = 0x78 then readNumber 16 r else readNumber 10 t
    | [] => readNumber 10 []
  if code = 0 then .error .zero
  else if Utf8.isScalar code then .ok (Utf8.encode code)
  else .error (.notACharacter code)

/-! ### Entities -/

/-- The character that a predefined entity stands for. -/
def entity? (name : Text) : Option Text :=
  if name = "lt" then some [less]
  else if name = "gt" then some [greater]
  else if name = "amp" then some [ampersand]
  else if name = "apos" then some [quote]
  else if name = "quot" then some [doubleQuote]
  else none

/-- The text that stands for what is between `&` and `;`.  `start` is the offset behind the
ampersand. -/
def reference (start : Nat) (body : Text) : Except Error Text :=
  match body with
  | numberSign :: r => match charRef r with
    | .ok c => .ok c
    | .error e => .error (.charRef e)
  | _ => match entity? body with
    | some c => .ok c
    | none => .error (.unrecognizedEntity start (start + body.length) body)

/-- Replaces the references of a text.  `offset` bytes of the `size` bytes of the whole text
stand before. -/
def unescapeFrom (size offset : Nat) : Text → Except Error Text
  | [] => .ok []
  | b :: r =>
    if b = ampersand then
      let body := r.takeWhile fun c => c != ampersand && c != semicolon
      match r.drop body.length with
      | semicolon :: _ => do
        let c ← reference (offset + 1) body
        let rest ← unescapeFrom size (offset + body.length + 2) (r.drop (body.length + 1))
        .ok (c ++ rest)
      | _ => .error (.unterminatedEntity offset size)
    else do
      let rest ← unescapeFrom size (offset + 1) r
      .ok (b :: rest)
termination_by t => t.length
decreasing_by all_goals simp only [List.length_drop, List.length_cons]; omega

/-- Replaces the references of a text. -/
def unescape (t : Text) : Except Error Text := unescapeFrom t.length 0 t

end PascalSurvey.Xml
