/-
PascalSurvey/Xml/Error.lean

What can be wrong with an XML document, and how it is said.
-/
import PascalSurvey.Text.Basic

namespace PascalSurvey.Xml

open Ascii

/-- What can be wrong with a character reference. -/
inductive CharRefError where
  | sign
  | empty
  | invalidDigit
  | tooLarge
  | notACharacter (code : Nat)
  | zero
  deriving Repr, DecidableEq

def CharRefError.message : CharRefError → Text
  | .sign => "unexpected number sign"
  | .empty => "cannot parse integer from empty string"
  | .invalidDigit => "invalid digit found in string"
  | .tooLarge => "number too large to fit in target type"
  | .notACharacter code =>
    Text.ofString "`" ++ Text.ofNat code ++ Text.ofString "` is not a valid codepoint"
  | .zero => "0x0 character is not permitted in XML"

/-- What can be wrong with a document. -/
inductive Error where
  | mismatchedEnd (expected found : Text)
  | unmatchedEnd (name : Text)
  | missingDoctypeName
  | invalidBang
  | unclosedInstruction
  | unclosedComment
  | unclosedDoctype
  | unclosedCdata
  | unclosedTag
  /-- An entity without a meaning, at a range of the text it stands in. -/
  | unrecognizedEntity (start stop : Nat) (name : Text)
  /-- An ampersand without a semicolon after it. -/
  | unterminatedEntity (start stop : Nat)
  | charRef (e : CharRefError)
  /-- A declaration that binds a prefix which cannot be bound anew. -/
  | reservedPrefix (pre uri : Text)
  /-- A declaration of a namespace name that belongs to another prefix. -/
  | reservedSpace (pre uri : Text)
  | unclosedElement (name : Text)
  deriving Repr, DecidableEq

/-- A byte in a quoted byte string: printable ones stand for themselves, a double quote gets a
backslash, and others are written in hexadecimal. -/
def quotedByte (b : UInt8) : Text :=
  if b = doubleQuote then [backslash, doubleQuote]
  else if 32 ≤ b ∧ b ≤ 126 then [b]
  else Text.ofString "0x" ++ (Nat.toDigits 16 b.toNat).map fun c => upper c.toUInt8

/-- A byte string in double quotes. -/
def quotedBytes (t : Text) : Text := doubleQuote :: t.flatMap quotedByte ++ [doubleQuote]

/-- A range of offsets. -/
def rangeText (start stop : Nat) : Text :=
  Text.ofNat start ++ Text.ofString ".." ++ Text.ofNat stop

/-- The message for a part that the end of the input leaves open. -/
def notClosed (what closer : String) : Text :=
  Text.ofString "syntax error: " ++ Text.ofString what ++ Text.ofString " not closed: `" ++
    Text.ofString closer ++ Text.ofString "` not found before end of input"

def Error.message : Error → Text
  | .mismatchedEnd expected found =>
    Text.ofString "ill-formed document: expected `</" ++ expected ++ Text.ofString ">`, but `</" ++
      found ++ Text.ofString ">` was found"
  | .unmatchedEnd name =>
    Text.ofString "ill-formed document: close tag `</" ++ name ++
      Text.ofString ">` does not match any open tag"
  | .missingDoctypeName =>
    Text.ofString "ill-formed document: `<!DOCTYPE>` declaration does not contain a name of " ++
      Text.ofString "a document type"
  | .invalidBang => "syntax error: unknown or missed symbol in markup"
  | .unclosedInstruction => notClosed "processing instruction or xml declaration" "?>"
  | .unclosedComment => notClosed "comment" "-->"
  | .unclosedDoctype => notClosed "DOCTYPE" ">"
  | .unclosedCdata => notClosed "CDATA" "]]>"
  | .unclosedTag => notClosed "tag" ">"
  | .unrecognizedEntity start stop name =>
    Text.ofString "at " ++ rangeText start stop ++ Text.ofString ": unrecognized entity `" ++ name ++
      Text.ofString "`"
  | .unterminatedEntity start stop =>
    Text.ofString "Error while escaping character at range " ++ rangeText start stop ++
      Text.ofString ": Cannot find ';' after '&'"
  | .charRef e => Text.ofString "invalid character reference: " ++ e.message
  | .reservedPrefix pre uri =>
    Text.ofString "the namespace prefix '" ++ pre ++ Text.ofString "' cannot be bound to '" ++
      quotedBytes uri ++ Text.ofString "'"
  | .reservedSpace pre uri =>
    Text.ofString "the namespace prefix '" ++ quotedBytes pre ++
      Text.ofString "' cannot be bound to '" ++ uri ++ Text.ofString "'"
  | .unclosedElement name => Text.ofString "unclosed element <" ++ name ++ Text.ofString ">"

end PascalSurvey.Xml
