/-
PascalSurvey/Cancellation.lean

Cancelling a survey.  A survey asks from time to time whether it should stop.  All that matters
about the one who decides is what it answers to the first question, to the second and so on,
so a `Cancellation` is that sequence of answers.

`Tokens` is the other side: handles through which a stop can be requested.  Copies of a handle
share one flag.
-/

namespace PascalSurvey

/-- The answers to the question whether to stop, in the order of asking. -/
structure Cancellation where
  answer : Nat → Bool

namespace Cancellation

/-- Never stop. -/
def never : Cancellation := ⟨fun _ => false⟩

/-- Go on for `n` questions, then stop. -/
def afterAsking (n : Nat) : Cancellation := ⟨fun k => n ≤ k⟩

/-- The answers that are left after the first `n`. -/
def skip (c : Cancellation) (n : Nat) : Cancellation := ⟨fun k => c.answer (n + k)⟩

/-- The first answer. -/
def stops (c : Cancellation) : Bool := c.answer 0

end Cancellation

/-! ### Tokens -/

/-- Handles on shared flags: `flags` holds the flags and `tokens`, for each handle, the
position of its flag. -/
structure Tokens where
  flags : List Bool
  tokens : List Nat
  deriving Repr, DecidableEq

namespace Tokens

def empty : Tokens := ⟨[], []⟩

/-- A new handle with a flag of its own. -/
def fresh (s : Tokens) : Tokens := ⟨s.flags ++ [false], s.tokens ++ [s.flags.length]⟩

/-- A copy of the `i`th handle. -/
def clone (s : Tokens) (i : Nat) : Tokens :=
  match s.tokens[i]? with
  | some flag => { s with tokens := s.tokens ++ [flag] }
  | none => s

/-- Requests a stop through the `i`th handle. -/
def cancel (s : Tokens) (i : Nat) : Tokens :=
  match s.tokens[i]? with
  | some flag => { s with flags := s.flags.set flag true }
  | none => s

/-- Whether a stop was requested, for each handle. -/
def states (s : Tokens) : List Bool := s.tokens.map fun flag => s.flags.getD flag false

end Tokens
end PascalSurvey
