/-
PascalSurvey/Sql/Token.lean

The tokens of a statement.  Every byte belongs to a token, blanks and comments included, so
the texts of the tokens, put together, are the statement.
-/
import PascalSurvey.Source.Region
import PascalSurvey.Text.Utf8

namespace PascalSurvey.Sql

open Ascii

/-- The kinds of tokens. -/
inductive TokenKind where
  | word
  /-- A name in double quotes. -/
  | quotedName
  /-- A literal in single quotes. -/
  | literal
  /-- A colon and a name. -/
  | parameter
  | number
  | punct
  | space
  | comment
  deriving Repr, DecidableEq

/-- A token with its text. -/
structure Token where
  kind : TokenKind
  text : Text
  deriving Repr, DecidableEq

namespace Token

/-- Whether a token is a plain word, in any case. -/
def isWord (t : Token) (word : Text) : Bool := t.kind == .word && Text.eqFold t.text word

def isWordIn (t : Token) (words : List Text) : Bool := t.kind == .word && Text.memFold t.text words

def isPunct (t : Token) (p : Text) : Bool := t.kind == .punct && t.text == p

/-- Whether a token names something: a plain word or a quoted name. -/
def isName (t : Token) : Bool := t.kind == .word || t.kind == .quotedName

/-- Whether a token is more than a blank or a comment. -/
def isSignificant (t : Token) : Bool := !(t.kind == .space || t.kind == .comment)

end Token

/-! ### Reading tokens -/

def isWordByte (b : UInt8) : Bool := isIdentByte b || b == dollar

/-- The number of bytes of a literal after its opening quote.  Two quotes in a row stand for
one; a literal may go over several lines. -/
def literalTail : Text → Nat
  | [] => 0
  | quote :: quote :: r => 2 + literalTail r
  | quote :: _ => 1
  | _ :: r => 1 + literalTail r

/-- The number of bytes through the first double quote. -/
def throughDoubleQuote : Text → Nat
  | [] => 0
  | doubleQuote :: _ => 1
  | _ :: r => 1 + throughDoubleQuote r

/-- The number of bytes through the end of a block comment. -/
def throughStarSlash : Text → Nat
  | [] => 0
  | asterisk :: slash :: _ => 2
  | _ :: r => 1 + throughStarSlash r

/-- Operators of two characters. -/
def doubleOperators : List Text := ["<>", "<=", ">=", "!=", "||", "::"]

/-- The kind of the token that a text `b :: r` begins with, and the number of its bytes
beyond the first. -/
def tokenAt (b : UInt8) (r : Text) : TokenKind × Nat :=
  if b = quote then (.literal, literalTail r)
  else if b = doubleQuote then (.quotedName, throughDoubleQuote r)
  else if b = minus ∧ r.head? = some minus then (.comment, Source.untilBreak r)
  else if b = slash ∧ r.head? = some asterisk then (.comment, 1 + throughStarSlash r.tail)
  else if b = colon ∧ r.head?.any isIdentStart then (.parameter, (r.takeWhile isWordByte).length)
  else if isIdentStart b then (.word, (r.takeWhile isWordByte).length)
  else if isDigit b then
    (.number, (r.takeWhile fun c => isLetter c || isDigit c || c == dot).length)
  else if isBlank b then (.space, (r.takeWhile isBlank).length)
  else if doubleOperators.contains (b :: r.take 1) then (.punct, 1)
  else match Utf8.readHead b r with
    | .scalar _ more => (.punct, more)
    | .broken _ => (.punct, 0)

/-- The tokens of a statement. -/
def tokenize : Text → List Token
  | [] => []
  | b :: r =>
    let (kind, n) := tokenAt b r
    ⟨kind, b :: r.take n⟩ :: tokenize (r.drop n)
termination_by t => t.length
decreasing_by simp only [List.length_drop, List.length_cons]; omega

/-- The tokens of a statement hold all of its bytes in order. -/
theorem flatMap_text_tokenize (t : Text) : (tokenize t).flatMap Token.text = t := by
  fun_induction tokenize t with
  | case1 => rfl
  | case2 b r kind n _ ih => simp [ih]

end PascalSurvey.Sql
