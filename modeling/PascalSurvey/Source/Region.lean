/-
PascalSurvey/Source/Region.lean

What of a source text is not code: `//` comments, `{ }` and `(* *)` comments, compiler
directives included, and literals in single quotes.  `regionAt?` says which region a text
begins with and how many bytes it takes, and `pieces` cuts a whole text into single code
bytes and regions.  The pieces of a text, put together, are the text.

A `//` comment ends before its line break.  A comment that is never closed runs to the end
of the text, and a literal that is not closed on its line ends before the line break.
-/
import PascalSurvey.Text.Basic

namespace PascalSurvey.Source

open Ascii

/-! ### Regions -/

/-- The kinds of text that are not code. -/
inductive Region where
  | lineComment
  | braceComment
  | starComment
  | literal
  deriving Repr, DecidableEq

/-- The number of bytes before the first line break. -/
def untilBreak : Text → Nat
  | [] => 0
  | newline :: _ => 0
  | _ :: r => 1 + untilBreak r

/-- The number of bytes through the first closing brace. -/
def throughBrace : Text → Nat
  | [] => 0
  | rbrace :: _ => 1
  | _ :: r => 1 + throughBrace r

/-- The number of bytes through the first star with a closing parenthesis after it. -/
def throughStar : Text → Nat
  | [] => 0
  | asterisk :: rparen :: _ => 2
  | _ :: r => 1 + throughStar r

/-- The number of bytes of a literal after its opening quote.  Two quotes in a row stand for
one and do not close it. -/
def literalTail : Text → Nat
  | [] => 0
  | quote :: quote :: r => 2 + literalTail r
  | quote :: _ => 1
  | newline :: _ => 0
  | _ :: r => 1 + literalTail r

/-- The region that a text begins with, and the number of its bytes. -/
def regionAt? : Text → Option (Region × Nat)
  | slash :: slash :: r => some (.lineComment, 2 + untilBreak r)
  | lbrace :: r => some (.braceComment, 1 + throughBrace r)
  | lparen :: asterisk :: r => some (.starComment, 2 + throughStar r)
  | quote :: r => some (.literal, 1 + literalTail r)
  | _ => none

/-! ### Places in a text -/

/-- The offset just past the region that starts at offset `i`. -/
def regionEnd? (t : Text) (i : Nat) : Option Nat :=
  (regionAt? (t.drop i)).map fun (_, n) => i + n

/-- The offset just past the literal whose opening quote stands at offset `i`. -/
def literalEnd (t : Text) (i : Nat) : Nat :=
  if i + 1 < t.length then i + 1 + literalTail (t.drop (i + 1)) else t.length

/-- The number of ASCII blanks at the head of a text. -/
def blankRun (t : Text) : Nat := (t.takeWhile isBlank).length

/-- The number of ASCII identifier bytes at the head of a text. -/
def identRun (t : Text) : Nat := (t.takeWhile isIdentByte).length

/-! ### Pieces -/

/-- A part of a source text: a byte of code, or a region. -/
inductive Piece where
  | code (b : UInt8)
  | region (kind : Region) (text : Text)
  deriving Repr, DecidableEq

/-- The bytes of a piece. -/
def Piece.text : Piece → Text
  | .code b => [b]
  | .region _ t => t

/-- A source text cut from left to right into code bytes and regions. -/
def pieces : Text → List Piece
  | [] => []
  | b :: r => match regionAt? (b :: r) with
    | some (kind, n) => .region kind (b :: r.take (n - 1)) :: pieces (r.drop (n - 1))
    | none => .code b :: pieces r
termination_by t => t.length
decreasing_by all_goals simp only [List.length_drop, List.length_cons]; omega

/-- The pieces of a text hold all of its bytes in order. -/
theorem flatMap_text_pieces (t : Text) : (pieces t).flatMap Piece.text = t := by
  fun_induction pieces t with
  | case1 => rfl
  | case2 b r kind n h ih => simp [Piece.text, ih]
  | case3 b r h ih => simp [Piece.text, ih]

/-! ### Parentheses -/

/-- The distance to the parenthesis that closes the one at the head of the text.  `depth`
parentheses are open before it, and parentheses inside regions do not count. -/
def closing? (depth : Nat) : Text → Option Nat
  | [] => none
  | b :: r => match regionAt? (b :: r) with
    | some (_, n) => (closing? depth (r.drop (n - 1))).map (· + n)
    | none =>
      if b = lparen then (closing? (depth + 1) r).map (· + 1)
      else if b = rparen then
        if depth ≤ 1 then some 0 else (closing? (depth - 1) r).map (· + 1)
      else (closing? depth r).map (· + 1)
termination_by t => t.length
decreasing_by all_goals simp only [List.length_drop, List.length_cons]; omega

/-- The offset of the parenthesis that closes the one at offset `i`. -/
def closingParen? (t : Text) (i : Nat) : Option Nat :=
  (closing? 0 (t.drop i)).map (i + ·)

end PascalSurvey.Source
