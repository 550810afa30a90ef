/-
PascalSurvey/Sql/Expression.lean

String expressions.  An expression is a sum of terms.  A term is a string constant, a value
that is known only at run time and has a name, or anything else; the text of an expression
shows a named value as a parameter `:name` and anything else in braces.
-/
import PascalSurvey.Source.Name
import PascalSurvey.Source.Split
import PascalSurvey.Sql.Literal

namespace PascalSurvey.Sql

open Ascii

/-- A term of a string expression. -/
inductive Term where
  /-- A string constant, by its text. -/
  | literal (text : Text)
  /-- A value that has a name. -/
  | placeholder (name : Text)
  /-- Any other term, as written. -/
  | unresolved (source : Text)
  deriving Repr, DecidableEq

namespace Term

/-- The text of a term. -/
def render : Term → Text
  | .literal t => t
  | .placeholder name => colon :: name
  | .unresolved source => lbrace :: source ++ [rbrace]

def isLiteral : Term → Bool
  | .literal _ => true
  | _ => false

/-- The last segment of a dotted name. -/
def lastSegment (t : Text) : Text :=
  match Text.cutLast? dot t with
  | some (_, last) => Text.trim last
  | none => Text.trim t

/-- The offset of the opening parenthesis of a call at the head of a text. -/
def callParen? (t : Text) : Option Nat :=
  match t with
  | b :: r =>
    if isIdentStart b then
      let n := 1 + Utf8.run (fun c => isWordChar c || c == 0x2E) r
      let open_ := n + Text.blankRun (t.drop n)
      if (t.drop open_).head? = some lparen then some open_ else none
    else none
  | [] => none

/-- The argument of a call that is the whole term. -/
def callArgument? (t : Text) : Option Text := do
  let open_ ← callParen? t
  let close ← Source.closingParen? t open_
  if close + 1 = t.length ∧ open_ < close then
    some (Text.trim (Text.slice t (open_ + 1) close))
  else none

theorem length_callArgument?_lt {t inner : Text} (h : callArgument? t = some inner) :
    inner.length < t.length := by
  simp only [callArgument?, Option.bind_eq_bind, Option.bind_eq_some_iff] at h
  obtain ⟨o, _, c, _, h⟩ := h
  split at h
  · next hc =>
    obtain rfl := Option.some.inj h
    have := Text.length_trim_le (Text.slice t (o + 1) c)
    simp only [Text.slice, List.length_take, List.length_drop] at this
    simp only [Text.slice]
    omega
  · simp at h

/-- The name of a value: an identifier, the last segment of a dotted name, or the name of the
only argument of a call. -/
def placeholderName? (t : Text) : Option Text :=
  if Text.ident? t = some t.length then some t
  else if Source.dottedName? Text.ident? t = some t.length then some (lastSegment t)
  else match _h : callArgument? t with
    | none => none
    | some inner =>
      if (Source.splitTopLevel comma inner).length = 1 then placeholderName? inner else none
termination_by t.length
decreasing_by exact length_callArgument?_lt _h

/-- The term that a text writes. -/
def ofText (t : Text) : Term :=
  match parseLiteral? t with
  | some text => .literal text
  | none => match placeholderName? t with
    | some name => .placeholder name
    | none => .unresolved t

end Term

/-! ### Expressions -/

/-- What is known of the text that an expression writes. -/
structure Resolved where
  text : Text
  /-- Whether some term is not a constant. -/
  isDynamic : Bool
  /-- Whether no term is a constant, or the expression is a formatting call. -/
  fullyDynamic : Bool
  deriving Repr, DecidableEq

/-- The terms of a sum. -/
def splitConcatenation (t : Text) : List Text := Source.splitTopLevel plus t

/-- Whether an expression begins with a call of `Format`. -/
def isFormatCall (t : Text) : Bool :=
  match Text.matchFold? "format" t with
  | some n => (t.drop (n + Text.blankRun (t.drop n))).head? == some lparen
  | none => false

/-- The terms of an expression. -/
def terms (t : Text) : List Term := (splitConcatenation t).map fun s => Term.ofText (Text.trim s)

/-- What an expression writes. -/
def resolve (expression : Text) : Resolved :=
  let t := Text.trim expression
  if isFormatCall t then ⟨(Term.unresolved t).render, true, true⟩
  else
    let ts := terms t
    ⟨ts.flatMap Term.render, !ts.all Term.isLiteral, !ts.any Term.isLiteral⟩

end PascalSurvey.Sql
