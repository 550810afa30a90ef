/-
PascalSurvey/Sql/Statement.lean

The statements of a method: the parts between semicolons outside literals and parentheses,
each with the offset at which it starts.  Words that only begin a block, and the conditions
and loop heads before a statement, are stripped from it.
-/
import PascalSurvey.Source.Mask
import PascalSurvey.Source.Split
import PascalSurvey.Text.Blank
import PascalSurvey.Text.WordChar

namespace PascalSurvey.Sql

open Ascii

/-- A statement and where it starts. -/
structure Statement where
  text : Text
  offset : Nat
  deriving Repr, DecidableEq

namespace Statement

/-! ### Cutting -/

/-- The parts between semicolons outside literals and brackets.  A closing bracket without an
opening one does not count. -/
def partsFrom (depth : Nat) : Text → List Text
  | [] => [[]]
  | b :: r =>
    if b = quote then
      let n := Source.literalTail r
      Source.onFirst (b :: r.take n) (partsFrom depth (r.drop n))
    else if b = lparen ∨ b = lbracket then Source.onFirst [b] (partsFrom (depth + 1) r)
    else if b = rparen ∨ b = rbracket then Source.onFirst [b] (partsFrom (depth - 1) r)
    else if b = semicolon ∧ depth = 0 then [] :: partsFrom depth r
    else Source.onFirst [b] (partsFrom depth r)
termination_by t => t.length
decreasing_by all_goals simp only [List.length_drop, List.length_cons]; omega

/-- The statements of parts that stand one after another from an offset on. -/
def ofParts (offset : Nat) : List Text → List Statement
  | [] => []
  | part :: rest =>
    let text := Text.trim part
    let more := ofParts (offset + part.length + 1) rest
    if text.isEmpty then more else ⟨text, offset + Text.blankRun part⟩ :: more

/-- The statements of a text without comments. -/
def split (clean : Text) : List Statement := ofParts 0 (partsFrom 0 clean)

/-! ### Leading words -/

/-- Words that may stand before a statement without being part of it. -/
def leadingWords : List Text :=
  ["begin", "try", "finally", "except", "else", "do", "repeat", "then", "end"]

/-- The words that begin a condition or a loop. -/
def guardWords : List Text := ["if", "while", "for", "with", "on"]

theorem isLower_of_mem_leadingWords {word : Text} (h : word ∈ leadingWords) :
    ∀ c ∈ word, isLower c = true := by
  have hall : leadingWords.all (fun w => w.all isLower) = true := rfl
  exact List.all_eq_true.mp (List.all_eq_true.mp hall word h)

theorem isLower_of_mem_guardWords {word : Text} (h : word ∈ guardWords) :
    ∀ c ∈ word, isLower c = true := by
  have hall : guardWords.all (fun w => w.all isLower) = true := rfl
  exact List.all_eq_true.mp (List.all_eq_true.mp hall word h)

/-- A statement that starts where `rest` of it starts, blanks skipped. -/
def advance (s : Statement) (rest : Text) : Statement :=
  let t := Text.trimStart rest
  ⟨t, s.offset + (s.text.length - t.length)⟩

/-- What follows a whole word at the head of a text. -/
def afterWord? (word t : Text) : Option Text :=
  match Text.afterFold? word t with
  | some rest => if rest.head?.any isIdentByte then none else some rest
  | none => none

def dropWord (s : Statement) (word : Text) : Statement :=
  match afterWord? word s.text with
  | some rest => s.advance rest
  | none => s

/-- The offset just past the first word `then` or `do`. -/
def guardEnd? : Text → Option Nat
  | [] => none
  | b :: r =>
    let n := (r.takeWhile isIdentByte).length
    if isIdentByte b then
      let word := b :: r.take n
      if isIdentStart b && (Text.eqFold word "then" || Text.eqFold word "do") then some (n + 1)
      else (guardEnd? (r.drop n)).map (· + (n + 1))
    else (guardEnd? r).map (· + 1)
termination_by t => t.length
decreasing_by all_goals simp only [List.length_drop, List.length_cons]; omega

/-- Whether a text begins with a condition or a loop. -/
def isGuarded (t : Text) : Bool := guardWords.any fun w => (Text.matchWord? w t).isSome

def dropGuard (s : Statement) : Statement :=
  if isGuarded s.text then
    match guardEnd? (Source.mask .commentsAndLiterals s.text) with
    | some n => s.advance (s.text.drop n)
    | none => s
  else s

/-- One round of stripping. -/
def stripOnce (s : Statement) : Statement := dropGuard (leadingWords.foldl dropWord s)

/-- A statement without the words that lead to it: rounds of stripping as long as one
shortens it. -/
def strip (s : Statement) : Statement :=
  let next := stripOnce s
  if next.text.length < s.text.length then strip next else next
termination_by s.text.length

end Statement
end PascalSurvey.Sql
