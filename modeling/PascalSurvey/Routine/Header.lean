/-
PascalSurvey/Routine/Header.lean

Routine headers.  A header is a routine keyword at a word boundary, optionally after
`class`, with a dotted name that may carry type arguments, an optional parameter list, an
optional result type and a semicolon.  Directives may follow it; `forward` and `external`
say that no body does.

All functions here read the overlay of a text in which comments and literals are blank
(`Source.mask`), and offsets refer to it and so to the text.  `candidate?` recognises the
words and the name of a header, `ofCandidate?` reads the rest, `find?` searches from an
offset on and `parseAt?` reads the header whose keyword stands at an offset.
-/
import PascalSurvey.Routine.Kind
import PascalSurvey.Source.Name
import PascalSurvey.Source.Region
import PascalSurvey.Text.Cursor

namespace PascalSurvey.Routine

open Ascii

/-- A routine header, located in its text. -/
structure Header where
  /-- Where the header starts, a leading `class` included. -/
  start : Nat
  /-- Where the routine keyword starts. -/
  keywordStart : Nat
  /-- Just past the semicolon of the header. -/
  stop : Nat
  kind : Kind
  isClassMethod : Bool
  /-- What stands before the last dot of the name. -/
  className : Option Text
  name : Text
  /-- Where the text between the parentheses starts and ends. -/
  params : Option (Nat × Nat)
  /-- The result type with single spaces. -/
  returnType : Option Text
  /-- Whether `forward` or `external` follows, so that there is no body. -/
  declarationOnly : Bool
  /-- Just past the directives after the header. -/
  directivesEnd : Nat
  deriving Repr, DecidableEq

/-- Whether the name belongs to a class. -/
def Header.isQualified (h : Header) : Bool := h.className.isSome

namespace Header

/-! ### Names -/

/-- The length of the type arguments `< ... >` at the head of a text, blanks before them
included.  They hold neither angle brackets nor parentheses nor semicolons. -/
def typeArguments? (t : Text) : Option Nat :=
  let lead := Text.blankRun t
  match t.drop lead with
  | less :: r =>
    let inner := r.takeWhile fun b =>
      !(b == less || b == greater || b == lparen || b == rparen || b == semicolon)
    match r.drop inner.length with
    | greater :: _ => some (lead + inner.length + 2)
    | _ => none
  | _ => none

/-- The length of an identifier with optional type arguments. -/
def segment? (t : Text) : Option Nat := do
  let n ← Text.identFold? t
  some (n + (typeArguments? (t.drop n)).getD 0)

/-- The parts of a name before and after its last dot outside angle brackets.  `depth` is the
number of open brackets, `seen` the bytes read so far in reverse and `found` the last cut. -/
def lastDot (depth : Int) (seen : Text) (found : Option (Text × Text)) :
    Text → Option (Text × Text)
  | [] => found
  | b :: r =>
    if b = less then lastDot (depth + 1) (b :: seen) found r
    else if b = greater then lastDot (depth - 1) (b :: seen) found r
    else if b = dot ∧ depth = 0 then lastDot depth (b :: seen) (some (seen.reverse, r)) r
    else lastDot depth (b :: seen) found r

/-- The class and the plain name of a dotted name. -/
def splitQualified (name : Text) : Option Text × Text :=
  match lastDot 0 [] none name with
  | some (className, name) => (some className, name)
  | none => (none, name)

/-! ### The words of a header -/

/-- The lengths of the parts of a possible header. -/
structure Candidate where
  /-- `class` and the blanks after it; 0 if there is none. -/
  lead : Nat
  /-- The routine keyword. -/
  keyword : Nat
  /-- The blanks after the keyword. -/
  gap : Nat
  /-- The name. -/
  name : Nat
  deriving Repr, DecidableEq

/-- The whole length of a candidate. -/
def Candidate.size (m : Candidate) : Nat := m.lead + m.keyword + m.gap + m.name

/-- The length of the routine keyword at the head of a text. -/
def keyword? (t : Text) : Option Nat :=
  Kind.all.findSome? fun k => Text.matchFold? k.keyword t

/-- A routine keyword and a name at the head of a text. -/
def bare? (t : Text) : Option Candidate := do
  let k ← keyword? t
  let gap := Text.blankRun (t.drop k)
  if gap = 0 then none
  else
    let n ← Source.dottedName? segment? (t.drop (k + gap))
    some ⟨0, k, gap, n⟩

/-- The length of `class` and the spaces and tabs after it. -/
def classWord? (t : Text) : Option Nat := do
  let n ← Text.matchFold? "class" t
  let gap := ((t.drop n).takeWhile fun b => b == space || b == tab).length
  if gap = 0 then none else some (n + gap)

/-- The candidate at the head of a text. -/
def words? (t : Text) : Option Candidate :=
  (do
    let lead ← classWord? t
    let m ← bare? (t.drop lead)
    some { m with lead }) <|> bare? t

/-- The candidate at a place, which must not continue a word. -/
def candidate? (c : Cursor) : Option Candidate :=
  if Text.endsWord c.before then none else words? c.after

/-- Whether a header may start after the given text, which is in reverse.  A procedural type
(`= procedure`, `: function`, `reference to procedure`) and a member access are no headers. -/
def mayStartAfter (before : Text) : Bool :=
  match before.dropWhile isBlank with
  | [] => true
  | b :: r =>
    if b == equals || b == colon || b == dot || b == ampersand || b == lparen || b == comma then
      false
    else if isIdentByte b then
      !Text.eqFold ((b :: r).takeWhile isIdentByte).reverse "to"
    else true

/-! ### Directives -/

/-- Directives that may follow a header and leave it with a body. -/
def directiveWords : List Text :=
  ["overload", "virtual", "override", "reintroduce", "dynamic", "abstract", "static", "inline",
    "final", "stdcall", "cdecl", "register", "pascal", "safecall", "winapi", "assembler",
    "export", "varargs", "deprecated", "platform", "library", "experimental", "message",
    "dispid"]

/-- Directives after which no body comes. -/
def bodilessWords : List Text := ["forward", "external"]

/-- The length of the directive at the head of a text, blanks before it and its semicolon
included, and whether it says that no body comes.  One without a semicolon takes all. -/
def directive? (t : Text) : Option (Nat × Bool) :=
  let lead := Source.blankRun t
  let rest := t.drop lead
  let n := if rest.head?.any isIdentStart then Source.identRun rest else 0
  let word := Text.toLower (rest.take n)
  let bodiless := bodilessWords.contains word
  if bodiless || directiveWords.contains word then
    match Text.find? semicolon (rest.drop n) with
    | some p => some (lead + n + p + 1, bodiless)
    | none => some (t.length, bodiless)
  else none

/-- The length of all directives at the head of a text, and whether one of them says that no
body comes. -/
def directives (t : Text) : Nat × Bool :=
  match directive? t with
  | none => (0, false)
  | some (n, bodiless) =>
    if 0 < n ∧ 0 < t.length then
      let (m, more) := directives (t.drop n)
      (n + m, bodiless || more)
    else (n, bodiless)
termination_by t.length
decreasing_by simp only [List.length_drop]; omega

/-! ### Whole headers -/

/-- The parameter list at the head of a text: the offsets of its text, and the length through
the closing parenthesis and the blanks after it. -/
def parameters? (t : Text) : Option (Option (Nat × Nat) × Nat) :=
  match t with
  | lparen :: _ => (Source.closing? 0 t).map fun close =>
      (some (1, close), close + 1 + Source.blankRun (t.drop (close + 1)))
  | _ => some (none, 0)

/-- The result type at the head of a text and the length up to its semicolon. -/
def result? (t : Text) : Option (Option Text × Nat) :=
  match t with
  | colon :: r => do
    let n ← Text.find? semicolon r
    let typeText := Text.squeeze (r.take n)
    if typeText.isEmpty then none else some (some typeText, n + 1)
  | _ => some (none, 0)

/-- The header that begins with the candidate `m` at the place `c`. -/
def ofCandidate? (c : Cursor) (m : Candidate) : Option Header :=
  if !mayStartAfter c.before then none
  else do
    let keywordText := (c.after.drop m.lead).take m.keyword
    let nameText := (c.after.drop (m.lead + m.keyword + m.gap)).take m.name
    let (className, name) := splitQualified (Text.withoutBlanks nameText)
    let afterName := c.after.drop m.size
    let toParams := m.size + Source.blankRun afterName
    let (params, n) ← parameters? (c.after.drop toParams)
    let toResult := toParams + n
    let (returnType, n) ← result? (c.after.drop toResult)
    let toSemicolon := toResult + n
    match c.after.drop toSemicolon with
    | semicolon :: r =>
      let kind ← Kind.ofKeyword? keywordText
      let stop := c.offset + toSemicolon + 1
      let (n, declarationOnly) := directives r
      some {
        start := c.offset
        keywordStart := c.offset + m.lead
        stop
        kind
        isClassMethod := m.lead != 0
        className
        name
        params := params.map fun (s, e) => (c.offset + toParams + s, c.offset + toParams + e)
        returnType
        declarationOnly
        directivesEnd := stop + n }
    | _ => none

/-! ### Finding headers -/

/-- The first header at or after a place.  A candidate that is no header is passed over
whole. -/
def findFrom? (c : Cursor) : Option Header :=
  if c.atEnd then none
  else match candidate? c with
    | none => findFrom? (c.advance 1)
    | some m => (ofCandidate? c m) <|> findFrom? (c.advance (max 1 m.size))
termination_by c.after.length
decreasing_by all_goals exact Cursor.length_after_advance_lt ‹_› (by omega)

/-- The first header at or after an offset. -/
def find? (masked : Text) (offset : Nat) : Option Header :=
  if offset < masked.length then findFrom? (Cursor.ofOffset masked offset) else none

/-- The header whose routine keyword stands at a place. -/
def atPlace? (c : Cursor) : Option Header :=
  if Text.endsWord c.before then none
  else do ofCandidate? c (← bare? c.after)

/-- The header whose routine keyword stands at an offset. -/
def parseAt? (masked : Text) (offset : Nat) : Option Header :=
  if offset ≤ masked.length then atPlace? (Cursor.ofOffset masked offset) else none

/-- All headers from an offset on, each found after the semicolon of the one before. -/
def findAll (masked : Text) (offset : Nat) : List Header :=
  match find? masked offset with
  | none => []
  | some h =>
    h :: if offset < h.stop ∧ offset < masked.length then findAll masked h.stop else []
termination_by masked.length - offset
decreasing_by omega

end Header
end PascalSurvey.Routine
