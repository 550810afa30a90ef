/-
PascalSurvey/Source/Split.lean

Cutting a text at separators that stand outside literals, and, for `splitTopLevel`, also
outside parentheses and brackets.  The pieces, joined by the separator, are the text.
-/
import PascalSurvey.Source.Region

namespace PascalSurvey.Source

open Ascii

/-- Puts bytes in front of the first piece. -/
def onFirst (head : Text) : List Text → List Text
  | [] => [head]
  | piece :: rest => (head ++ piece) :: rest

/-- The pieces between the separators that stand outside literals. -/
def splitOutsideLiterals (sep : UInt8) : Text → List Text
  | [] => [[]]
  | b :: r =>
    if b = quote then
      let n := literalTail r
      onFirst (b :: r.take n) (splitOutsideLiterals sep (r.drop n))
    else if b = sep then [] :: splitOutsideLiterals sep r
    else onFirst [b] (splitOutsideLiterals sep r)
termination_by t => t.length
decreasing_by all_goals simp only [List.length_drop, List.length_cons]; omega

/-- The pieces between the separators that stand outside literals and at nesting depth zero.
Closing brackets may lead below zero, where no separator counts. -/
def splitTopLevelFrom (depth : Int) (sep : UInt8) : Text → List Text
  | [] => [[]]
  | b :: r =>
    if b = quote then
      let n := literalTail r
      onFirst (b :: r.take n) (splitTopLevelFrom depth sep (r.drop n))
    else if b = lparen ∨ b = lbracket then onFirst [b] (splitTopLevelFrom (depth + 1) sep r)
    else if b = rparen ∨ b = rbracket then onFirst [b] (splitTopLevelFrom (depth - 1) sep r)
    else if b = sep ∧ depth = 0 then [] :: splitTopLevelFrom depth sep r
    else onFirst [b] (splitTopLevelFrom depth sep r)
termination_by t => t.length
decreasing_by all_goals simp only [List.length_drop, List.length_cons]; omega

def splitTopLevel (sep : UInt8) (t : Text) : List Text := splitTopLevelFrom 0 sep t

/-! ### Joining the pieces

A split loses nothing but the separators: the pieces, joined by the separator, are the text
again, whatever the text. -/

theorem onFirst_ne_nil (head : Text) (ps : List Text) : onFirst head ps ≠ [] := by
  cases ps <;> simp [onFirst]

theorem onFirst_cons (head p : Text) (ps : List Text) :
    onFirst head (p :: ps) = (head ++ p) :: ps := rfl

theorem onFirst_nil {ps : List Text} (h : ps ≠ []) : onFirst [] ps = ps := by
  cases ps with
  | nil => exact absurd rfl h
  | cons p ps => rfl

theorem onFirst_onFirst (a b : Text) (ps : List Text) :
    onFirst a (onFirst b ps) = onFirst (a ++ b) ps := by
  cases ps with
  | nil => rfl
  | cons p ps => simp [onFirst]

theorem join_onFirst (sep head : Text) {ps : List Text} (h : ps ≠ []) :
    Text.join sep (onFirst head ps) = head ++ Text.join sep ps := by
  match ps with
  | [p] => simp [onFirst, Text.join]
  | p :: q :: rest => simp [onFirst, Text.join]

theorem join_nil_cons (sep : Text) {ps : List Text} (h : ps ≠ []) :
    Text.join sep ([] :: ps) = sep ++ Text.join sep ps := by
  match ps with
  | [p] => simp [Text.join]
  | p :: q :: rest => simp [Text.join]

theorem splitOutsideLiterals_ne_nil (sep : UInt8) (t : Text) :
    splitOutsideLiterals sep t ≠ [] := by
  fun_cases splitOutsideLiterals sep t <;> simp [onFirst_ne_nil]

theorem splitTopLevelFrom_ne_nil (depth : Int) (sep : UInt8) (t : Text) :
    splitTopLevelFrom depth sep t ≠ [] := by
  fun_cases splitTopLevelFrom depth sep t <;> simp [onFirst_ne_nil]

theorem join_splitTopLevelFrom (depth : Int) (sep : UInt8) (t : Text) :
    Text.join [sep] (splitTopLevelFrom depth sep t) = t := by
  fun_induction splitTopLevelFrom depth sep t with
  | case1 => simp [Text.join]
  | case2 depth r n ih =>
    rw [join_onFirst _ _ (splitTopLevelFrom_ne_nil _ _ _), ih]
    simp
  | case5 depth b r _ _ _ h ih =>
    obtain ⟨rfl, rfl⟩ := h
    rw [join_nil_cons _ (splitTopLevelFrom_ne_nil _ _ _), ih]
    rfl
  | case3 _ _ _ _ _ ih | case4 _ _ _ _ _ _ ih | case6 _ _ _ _ _ _ _ ih =>
    rw [join_onFirst _ _ (splitTopLevelFrom_ne_nil _ _ _), ih]
    rfl

end PascalSurvey.Source
