/-
PascalSurvey/Routine/Body.lean

Where a routine's body ends.  The walk goes over the code words of a text: `begin`, `try`,
`case` and `asm` open a block and `end` closes one, and the body ends with the `end` that
closes its outermost block.  Before that block come declarations, where an `end` closes a
record and counts for nothing, and where a routine may be nested: the walk then goes through
the nested routine's body first.

The walk stops early, without a closing `end`, at the limit and at a header that cannot be
part of the body: a qualified one, one of a constructor or destructor, or any header once a
block is open.

A routine that waits for a nested one has no block open, so all that is kept of it is that
it waits: `suspended` counts such routines.
-/
import PascalSurvey.Routine.Header

namespace PascalSurvey.Routine

open Ascii

/-- Where a walk over a body stopped. -/
structure BodyScan where
  /-- Just past the closing `end` and its semicolon, or where the body was cut. -/
  stop : Nat
  /-- Whether a balanced `end` was found. -/
  terminated : Bool
  /-- Whether a block of the outermost routine was reached. -/
  bodyStarted : Bool
  deriving Repr, DecidableEq

namespace Body

/-! ### Words -/

/-- What a code word means to the walk. -/
inductive Word where
  /-- `begin`, `try`, `case` or `asm`. -/
  | opener
  | closer
  | classWord
  | routine (kind : Kind)
  | other
  deriving Repr, DecidableEq

def Word.ofText (word : Text) : Word :=
  let w := Text.toLower word
  if w = "begin" ∨ w = "try" ∨ w = "case" ∨ w = "asm" then .opener
  else if w = "end" then .closer
  else if w = "class" then .classWord
  else match Kind.ofKeyword? word with
    | some kind => .routine kind
    | none => .other

/-- Whether kinds of routine can be declared inside another routine. -/
def nestable : Kind → Bool
  | .procedure | .function => true
  | .constructor | .destructor => false

/-! ### The end of a body -/

/-- The length through the semicolon after a closing `end`, if only blanks and comments stand
before it; else 0.  `room` bytes are left before the limit. -/
def semicolonAfter? (room : Nat) : Text → Option Nat
  | [] => none
  | b :: r =>
    if room = 0 then none
    else match Source.regionAt? (b :: r) with
      | some (.literal, _) => none
      | some (_, n) => (semicolonAfter? (room - n) (r.drop (n - 1))).map (· + n)
      | none =>
        if b = semicolon then some 1
        else if isBlank b then (semicolonAfter? (room - 1) r).map (· + 1)
        else none
termination_by t => t.length
decreasing_by all_goals simp only [List.length_drop, List.length_cons]; omega

/-! ### The walk -/

/-- The state of a walk. -/
structure State where
  /-- The open blocks of the current routine. -/
  depth : Nat
  /-- The routines that wait for a nested one to end. -/
  suspended : Nat
  /-- Where a `class` word stands that directly precedes the current place. -/
  pendingClass : Option Nat
  deriving Repr, DecidableEq

/-- The state before the first word of a routine. -/
def State.fresh (suspended : Nat) : State := ⟨0, suspended, none⟩

/-- What the walk does at a place. -/
inductive Move where
  /-- Go on at an offset. -/
  | goOn (offset : Nat) (state : State)
  /-- Stop. -/
  | halt (result : BodyScan)
  deriving Repr, DecidableEq

/-- Stopping without a closing `end`. -/
def State.cut (s : State) (offset : Nat) : Move :=
  .halt ⟨offset, false, s.suspended = 0 ∧ 0 < s.depth⟩

/-- What the walk does after a word that ends at `wordEnd` and means `word`.  `header` is the
header that the word begins, if it is a routine keyword that begins one, and `text` what
follows the word. -/
def afterWord (limit wordStart wordEnd : Nat) (word : Word) (header : Option Header)
    (text : Text) (s : State) : Move :=
  let plain := { s with pendingClass := none }
  match word with
  | .opener => .goOn wordEnd { plain with depth := s.depth + 1 }
  | .closer =>
    if 1 < s.depth then .goOn wordEnd { plain with depth := s.depth - 1 }
    else if s.depth = 0 then .goOn wordEnd plain
    else
      let stop := wordEnd + (semicolonAfter? (limit - wordEnd) text).getD 0
      match s.suspended with
      | 0 => .halt ⟨stop, true, true⟩
      | n + 1 => .goOn stop (State.fresh n)
  | .classWord => .goOn wordEnd { s with pendingClass := some wordStart }
  | .routine kind => match header with
    | none => .goOn wordEnd plain
    | some h =>
      if h.isClassMethod || h.isQualified || 0 < s.depth || !nestable kind then
        s.cut (s.pendingClass.getD wordStart)
      else if h.declarationOnly then .goOn (min h.directivesEnd limit) plain
      else .goOn (min h.stop limit) (State.fresh (s.suspended + 1))
  | .other => .goOn wordEnd plain

/-- One step of the walk at the place `text`, which is also the place `masked` of the
overlay. -/
def step (limit : Nat) (text masked : Cursor) (s : State) : Move :=
  if limit ≤ text.offset then s.cut limit
  else match text.after with
    | [] => s.cut limit
    | b :: r => match Source.regionAt? (b :: r) with
      | some (_, n) => .goOn (min (text.offset + n) limit) s
      | none =>
        if isIdentStart b && !text.before.head?.any isIdentByte then
          let n := min (Source.identRun (b :: r)) (limit - text.offset)
          let wordEnd := text.offset + n
          if text.before.head?.any fun p => p == dot || p == ampersand then
            .goOn wordEnd { s with pendingClass := none }
          else
            let word := Word.ofText ((b :: r).take n)
            let header := match word with
              | .routine _ => Header.atPlace? masked
              | _ => none
            afterWord limit text.offset wordEnd word header (text.after.drop n) s
        else
          .goOn (text.offset + 1) (if isBlank b then s else { s with pendingClass := none })

/-- Walks from a place to the end of the body.  Every step moves on by at least one byte. -/
def walk (limit : Nat) (text masked : Cursor) (s : State) : BodyScan :=
  match step limit text masked s with
  | .halt result => result
  | .goOn offset s =>
    let n := max 1 (offset - text.offset)
    if text.atEnd then ⟨limit, false, false⟩
    else walk limit (text.advance n) (masked.advance n) s
termination_by text.after.length
decreasing_by exact Cursor.length_after_advance_lt ‹_› (by omega)

/-- Delimits the body that starts at an offset.  `masked` is the overlay of `text` without
comments and literals, and nothing at or after `limit` is walked. -/
def scan (text masked : Text) (start limit : Nat) : BodyScan :=
  walk limit (Cursor.ofOffset text start) (Cursor.ofOffset masked start) (State.fresh 0)

end Body
end PascalSurvey.Routine
