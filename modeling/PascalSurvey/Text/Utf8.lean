/-
PascalSurvey/Text/Utf8.lean

The characters of a text.  `head?` reads the character at the head of a byte list together
with the number of bytes it takes, `last?` reads the one at the end of a reversed list, and
`encode` writes one.  Only well-formed sequences are read: shortest form, no surrogates, at
most U+10FFFF.

`lossy` makes a text of arbitrary bytes: each maximal part that begins a character and
cannot go on, and each byte that can begin none, becomes one replacement character.
-/
import PascalSurvey.Text.Basic

namespace PascalSurvey.Utf8

/-- A byte that continues a character. -/
def isContinuation (b : UInt8) : Bool := 0x80 ≤ b && b ≤ 0xBF

/-- The six low bits of a continuation byte. -/
def low (b : UInt8) : Nat := b.toNat - 0x80

/-! ### What a byte list begins with -/

/-- What stands at the head of a non-empty byte list. -/
inductive Head where
  /-- A character and the number of its bytes beyond the first. -/
  | scalar (code : Nat) (more : Nat)
  /-- A beginning that no character completes, and the number of its bytes beyond the first. -/
  | broken (more : Nat)
  deriving Repr, DecidableEq

/-- The bytes that may follow the first byte of a character of three or four bytes. -/
def secondRange (first : UInt8) : UInt8 × UInt8 :=
  if first = 0xE0 then (0xA0, 0xBF)
  else if first = 0xED then (0x80, 0x9F)
  else if first = 0xF0 then (0x90, 0xBF)
  else if first = 0xF4 then (0x80, 0x8F)
  else (0x80, 0xBF)

/-- Whether `second` may follow `first`. -/
def follows (first second : UInt8) : Bool :=
  (secondRange first).1 ≤ second && second ≤ (secondRange first).2

/-- Reads the head of the byte list `a :: r`. -/
def readHead (a : UInt8) (r : Text) : Head :=
  if a < 0x80 then .scalar a.toNat 0
  else if a < 0xC2 then .broken 0
  else if a < 0xE0 then
    match r with
    | b :: _ => if isContinuation b then .scalar ((a.toNat - 0xC0) * 64 + low b) 1 else .broken 0
    | [] => .broken 0
  else if a < 0xF0 then
    match r with
    | b :: r =>
      if follows a b then
        match r with
        | c :: _ =>
          if isContinuation c then
            .scalar (((a.toNat - 0xE0) * 64 + low b) * 64 + low c) 2
          else .broken 1
        | [] => .broken 1
      else .broken 0
    | [] => .broken 0
  else if a < 0xF5 then
    match r with
    | b :: r =>
      if follows a b then
        match r with
        | c :: r =>
          if isContinuation c then
            match r with
            | d :: _ =>
              if isContinuation d then
                .scalar ((((a.toNat - 0xF0) * 64 + low b) * 64 + low c) * 64 + low d) 3
              else .broken 2
            | [] => .broken 2
          else .broken 1
        | [] => .broken 1
      else .broken 0
    | [] => .broken 0
  else .broken 0

/-- The first character of a text and the number of its bytes. -/
def head? : Text → Option (Nat × Nat)
  | [] => none
  | a :: r => match readHead a r with
    | .scalar code more => some (code, more + 1)
    | .broken _ => none

/-- The last character of a text that is given in reverse. -/
def last? (before : Text) : Option Nat :=
  let tail := (before.take 3).takeWhile isContinuation
  match before.drop tail.length with
  | [] => none
  | a :: _ => match readHead a tail.reverse with
    | .scalar code more => if more = tail.length then some code else none
    | .broken _ => none

/-! ### Writing -/

/-- The bytes of a character. -/
def encode (code : Nat) : Text :=
  if code < 0x80 then [code.toUInt8]
  else if code < 0x800 then [(0xC0 + code / 64).toUInt8, (0x80 + code % 64).toUInt8]
  else if code < 0x10000 then
    [(0xE0 + code / 4096).toUInt8, (0x80 + code / 64 % 64).toUInt8, (0x80 + code % 64).toUInt8]
  else
    [(0xF0 + code / 262144).toUInt8, (0x80 + code / 4096 % 64).toUInt8,
      (0x80 + code / 64 % 64).toUInt8, (0x80 + code % 64).toUInt8]

/-- Whether a number is the code of a character: at most U+10FFFF and no surrogate. -/
def isScalar (code : Nat) : Bool := code < 0xD800 || (0xE000 ≤ code && code < 0x110000)

/-- U+FFFD. -/
def replacement : Text := [0xEF, 0xBF, 0xBD]

/-! ### Runs of characters -/

/-- The number of bytes in the longest run of characters at the head of a text that all
satisfy `p`. -/
def run (p : Nat → Bool) : Text → Nat
  | [] => 0
  | a :: r => match readHead a r with
    | .scalar code more => if p code then more + 1 + run p (r.drop more) else 0
    | .broken _ => 0
termination_by t => t.length
decreasing_by simp only [List.length_drop, List.length_cons]; omega

/-- The bytes of each character; bytes that form none stay attached to the one before. -/
def chars (t : Text) : List Text := List.splitBy (fun _ b => isContinuation b) t

/-- The code of the character that the bytes are, all together. -/
def code? (char : Text) : Option Nat := do
  let (code, n) ← head? char
  if n = char.length then some code else none

/-- A text without the characters that satisfy `p`. -/
def remove (p : Nat → Bool) (t : Text) : Text :=
  ((chars t).filter fun c => !((code? c).any p)).flatten

/-! ### Arbitrary bytes -/

/-- The text of arbitrary bytes, with U+FFFD for each part that is no character. -/
def lossy : List UInt8 → Text
  | [] => []
  | a :: r => match readHead a r with
    | .scalar _ more => a :: r.take more ++ lossy (r.drop more)
    | .broken more => replacement ++ lossy (r.drop more)
termination_by t => t.length
decreasing_by all_goals simp only [List.length_drop, List.length_cons]; omega

/-- Whether bytes are a text as they stand. -/
def isValid : List UInt8 → Bool
  | [] => true
  | a :: r => match readHead a r with
    | .scalar _ more => isValid (r.drop more)
    | .broken _ => false
termination_by t => t.length
decreasing_by simp only [List.length_drop, List.length_cons]; omega

/-- The byte order mark. -/
def byteOrderMark : Text := [0xEF, 0xBB, 0xBF]

/-- The bytes without a byte order mark at their head. -/
def withoutMark (bytes : List UInt8) : List UInt8 :=
  (Text.after? byteOrderMark bytes).getD bytes

end PascalSurvey.Utf8
