/-
PascalSurvey/Proofs/Sql/Nesting.lean

What stands in parentheses does not matter to the words outside of them.

The walk keeps the clauses of the levels around it on a stack.  A run of tokens whose
parentheses are balanced gives the stack back as it found it (`outer_afterAll`), whatever
clauses it begins inside, so behind the closing parenthesis the walk is in the clause in which
it met the opening one.  All that is left of the inside is the last token but one, and only
`INSERT INTO name (` asks about that token, which a closing parenthesis rules out
(`Context.Agrees.after_eq`).  Before the parentheses the walk looks ahead by one token, and
that token is the opening parenthesis.
-/
import PascalSurvey.Proofs.Sql.Quoting

namespace PascalSurvey.Sql

open Ascii

/-! ### Balanced parentheses -/

/-- The tokens of the two parentheses. -/
abbrev openParen : Token := ⟨.punct, [lparen]⟩

abbrev closeParen : Token := ⟨.punct, [rparen]⟩

/-- The number of parentheses that are open behind some tokens when `depth` are open before
them; none if a parenthesis is closed that none of them opened. -/
def depthAfter? (depth : Nat) : List Token → Option Nat
  | [] => some depth
  | t :: rest =>
    if t.isPunct [lparen] then depthAfter? (depth + 1) rest
    else if t.isPunct [rparen] then
      match depth with
      | 0 => none
      | d + 1 => depthAfter? d rest
    else depthAfter? depth rest

/-- The parentheses among the tokens of a text are balanced: the depth never falls below zero
and is zero at the end. -/
def Balanced (sql : Text) : Prop := depthAfter? 0 (tokenize sql) = some 0

instance (sql : Text) : Decidable (Balanced sql) :=
  inferInstanceAs (Decidable (depthAfter? 0 (tokenize sql) = some 0))

/-! ### What is known behind a run of tokens -/

/-- What is known behind all of some tokens. -/
def Context.afterAll (ctx : Context) (tokens : List Token) : Context :=
  (tokens.filter Token.isSignificant).foldl Context.after ctx

theorem Context.afterAll_cons (ctx : Context) (t : Token) (rest : List Token) :
    ctx.afterAll (t :: rest) = (if t.isSignificant then ctx.after t else ctx).afterAll rest := by
  unfold Context.afterAll
  rw [List.filter_cons]
  split <;> rfl

/-- The walk goes on behind a run of tokens with what is known there. -/
theorem drop_quoteTokensFrom (table : ReservedWords) (ctx : Context) (xs ys : List Token) :
    (quoteTokensFrom table ctx (xs ++ ys)).drop xs.length =
      quoteTokensFrom table (ctx.afterAll xs) ys := by
  induction xs generalizing ctx with
  | nil => rfl
  | cons t xs ih =>
    rw [List.cons_append, quoteTokensFrom, Context.afterAll_cons]
    split
    · rw [stepToken_eq]
      exact ih _
    · exact ih ctx

/-- Of what stands behind a run of tokens, the walk over it sees the next significant token. -/
theorem take_quoteTokensFrom {ys ys' : List Token}
    (h : ys.find? Token.isSignificant = ys'.find? Token.isSignificant) (table : ReservedWords)
    (ctx : Context) (xs : List Token) :
    (quoteTokensFrom table ctx (xs ++ ys)).take xs.length =
      (quoteTokensFrom table ctx (xs ++ ys')).take xs.length := by
  induction xs generalizing ctx with
  | nil => rfl
  | cons t xs ih =>
    have hnext : (xs ++ ys).find? Token.isSignificant = (xs ++ ys').find? Token.isSignificant := by
      rw [List.find?_append, List.find?_append, h]
    rw [List.cons_append, List.cons_append, quoteTokensFrom, quoteTokensFrom, hnext]
    split
    · rw [List.length_cons, List.take_succ_cons, List.take_succ_cons, ih]
    · rw [List.length_cons, List.take_succ_cons, List.take_succ_cons, ih]

/-- What the walk makes of a run of tokens that stands before the token `next`. -/
def quotedBefore (table : ReservedWords) (ctx : Context) (xs : List Token) (next : Token) :
    List Token :=
  (quoteTokensFrom table ctx (xs ++ [next])).take xs.length

theorem quotedBefore_requoted (table : ReservedWords) (ctx : Context) (xs : List Token)
    (next : Token) :
    List.Forall₂ (Requoted (Quotable table)) xs (quotedBefore table ctx xs next) := by
  have h := List.forall₂_take xs.length (quoteTokensFrom_requoted table ctx (xs ++ [next]))
  rwa [List.take_left] at h

theorem quoteTokensFrom_append_cons (table : ReservedWords) (ctx : Context) (xs ys : List Token)
    {next : Token} (hnext : next.isSignificant = true) :
    quoteTokensFrom table ctx (xs ++ next :: ys) =
      quotedBefore table ctx xs next ++ quoteTokensFrom table (ctx.afterAll xs) (next :: ys) := by
  have hsame : (next :: ys).find? Token.isSignificant = [next].find? Token.isSignificant := by
    rw [List.find?_cons_of_pos hnext, List.find?_cons_of_pos hnext]
  rw [quotedBefore, ← take_quoteTokensFrom hsame, ← drop_quoteTokensFrom, List.take_append_drop]

/-! ### The stack of clauses -/

theorem isPunct_of_not_significant {t : Token} (h : t.isSignificant = false) (p : Text) :
    t.isPunct p = false := by
  obtain ⟨kind, text⟩ := t
  cases kind <;> first | rfl | cases h

/-- **A run of tokens touches no more of the stack than it has parentheses open.** -/
theorem outer_afterAll {tokens : List Token} {depth depth' : Nat} {ctx : Context}
    {inner base : List Clause} (hdepth : depthAfter? depth tokens = some depth')
    (hinner : inner.length = depth) (houter : ctx.outer = inner ++ base) :
    ∃ inner', inner'.length = depth' ∧ (ctx.afterAll tokens).outer = inner' ++ base := by
  induction tokens generalizing depth ctx inner with
  | nil =>
    obtain rfl := Option.some.inj hdepth
    exact ⟨inner, hinner, houter⟩
  | cons t rest ih =>
    rw [Context.afterAll_cons]
    cases hsig : t.isSignificant with
    | false =>
      simp only [depthAfter?, isPunct_of_not_significant hsig, Bool.false_eq_true, if_false]
        at hdepth
      exact ih hdepth hinner houter
    | true =>
      rw [if_pos rfl]
      cases hopen : t.isPunct [lparen] with
      | true =>
        -- the clause of the current level goes on the stack
        simp only [depthAfter?, hopen, if_true] at hdepth
        have houter' : (ctx.after t).outer = (ctx.clause :: inner) ++ base := by
          rw [Context.after, Context.outerAfter, hopen, if_pos rfl, houter, List.cons_append]
        exact ih hdepth (by rw [List.length_cons, hinner]) houter'
      | false =>
        cases hclose : t.isPunct [rparen] with
        | true =>
          -- and is taken from it again
          simp only [depthAfter?, hopen, hclose, Bool.false_eq_true, if_false, if_true] at hdepth
          cases depth with
          | zero => cases hdepth
          | succ d =>
            obtain ⟨c, inner, rfl⟩ := List.exists_cons_of_length_eq_add_one hinner
            have houter' : (ctx.after t).outer = inner ++ base := by
              simp [Context.after, Context.outerAfter, hopen, hclose, houter]
            exact ih hdepth (by simpa using hinner) houter'
        | false =>
          simp only [depthAfter?, hopen, hclose, Bool.false_eq_true, if_false] at hdepth
          refine ih hdepth hinner ?_
          simp [Context.after, Context.outerAfter, hopen, hclose, houter]

/-- Behind a balanced run in parentheses the walk is in the clause in which it was before. -/
theorem outer_afterAll_balanced (ctx : Context) {ys : List Token}
    (h : depthAfter? 0 ys = some 0) :
    ((ctx.after openParen).afterAll ys).outer = ctx.clause :: ctx.outer := by
  have hopened : (ctx.after openParen).outer = [] ++ ctx.clause :: ctx.outer := rfl
  obtain ⟨inner, hinner, houter⟩ := outer_afterAll h rfl hopened
  rw [houter, List.eq_nil_of_length_eq_zero hinner, List.nil_append]

/-! ### Contexts that agree -/

/-- Two contexts that differ in the last token but one at most, and not in that if the last
token is a name. -/
structure Context.Agrees (c d : Context) : Prop where
  prev : c.prev = d.prev
  clause : c.clause = d.clause
  outer : c.outer = d.outer
  prev2 : c.prev.any Token.isName = true → c.prev2 = d.prev2

section Agreement

variable {c d : Context} (h : c.Agrees d)

include h

/-- Behind a further token there is no difference left. -/
theorem Context.Agrees.after_eq (t : Token) : c.after t = d.after t := by
  have hcolumns : (c.prev.any Token.isName && c.prev2.any (·.isWord "INTO")) =
      (d.prev.any Token.isName && d.prev2.any (·.isWord "INTO")) := by
    rw [← h.prev]
    cases hname : c.prev.any Token.isName with
    | true => rw [h.prev2 hname]
    | false => rfl
  rw [Context.after, Context.after, Context.clauseAfter, Context.clauseAfter, hcolumns,
    Context.outerAfter, Context.outerAfter, h.prev, h.clause, h.outer]

theorem Context.Agrees.quotes_eq (table : ReservedWords) (t : Token) (next : Option Token) :
    quotes table c t next = quotes table d t next := by
  rw [quotes, quotes, h.prev, h.clause]

/-- Two walks in contexts that agree decide alike. -/
theorem Context.Agrees.quoteTokensFrom_eq (table : ReservedWords) (tokens : List Token) :
    quoteTokensFrom table c tokens = quoteTokensFrom table d tokens := by
  induction tokens with
  | nil => rfl
  | cons t rest ih =>
    rw [quoteTokensFrom, quoteTokensFrom]
    split
    · rw [stepToken_eq, stepToken_eq, h.quotes_eq, h.after_eq]
    · rw [ih]

end Agreement

/-- Behind a parenthesised part the walk knows as much as if the part were empty. -/
theorem agrees_parenthesised (ctx : Context) {ys : List Token} (h : depthAfter? 0 ys = some 0) :
    (((ctx.after openParen).afterAll ys).after closeParen).Agrees
      ((ctx.after openParen).after closeParen) where
  prev := rfl
  clause := by
    show ((ctx.after openParen).afterAll ys).clauseAfter closeParen = ctx.clause
    rw [Context.clauseAfter, outer_afterAll_balanced ctx h]
    rfl
  outer := by
    show ((ctx.after openParen).afterAll ys).outerAfter closeParen = ctx.outer
    rw [Context.outerAfter, outer_afterAll_balanced ctx h]
    rfl
  prev2 hname := by cases hname

/-! ### Parenthesised parts of a statement -/

/-- The text `before(part)behind`. -/
def enclosed (before part behind : Text) : Text :=
  before ++ [lparen] ++ part ++ [rparen] ++ behind

/-- The tokens of `before(part)behind` are those of its parts: no token goes over a seam. -/
def Seamless (before part behind : Text) : Prop :=
  tokenize (enclosed before part behind) =
    tokenize before ++ openParen :: tokenize part ++ closeParen :: tokenize behind

instance (before part behind : Text) : Decidable (Seamless before part behind) :=
  inferInstanceAs (Decidable (_ = _))

/-- What the walk makes of what stands before a parenthesised part. -/
def quotedAhead (table : ReservedWords) (xs : List Token) : List Token :=
  quotedBefore table .initial xs openParen

/-- What the walk makes of a parenthesised part. -/
def quotedInside (table : ReservedWords) (xs ys : List Token) : List Token :=
  quotedBefore table ((Context.initial.afterAll xs).after openParen) ys closeParen

/-- What the walk makes of what stands behind a parenthesised part. -/
def quotedBehind (table : ReservedWords) (xs ss : List Token) : List Token :=
  quoteTokensFrom table (((Context.initial.afterAll xs).after openParen).after closeParen) ss

/-- **The walk over a statement with a parenthesised part, cut at the parentheses.** -/
theorem quoteTokens_parenthesised (table : ReservedWords) (xs ss : List Token) {ys : List Token}
    (hys : depthAfter? 0 ys = some 0) :
    quoteTokens table (xs ++ openParen :: ys ++ closeParen :: ss) =
      quotedAhead table xs ++ openParen :: quotedInside table xs ys ++
        closeParen :: quotedBehind table xs ss := by
  have hpunct (c : Context) {t : Token} (hkind : t.kind = .punct) (rest : List Token) :
      quoteTokensFrom table c (t :: rest) = t :: quoteTokensFrom table (c.after t) rest := by
    have hsig : t.isSignificant = true := by simp [Token.isSignificant, hkind]
    have hquotes (next : Option Token) : quotes table c t next = false := by simp [quotes, hkind]
    rw [quoteTokensFrom, if_pos hsig, stepToken_eq, hquotes]
    rfl
  rw [quoteTokens, List.append_assoc, List.cons_append,
    quoteTokensFrom_append_cons table .initial xs _ rfl, hpunct _ rfl,
    quoteTokensFrom_append_cons table _ ys ss rfl, hpunct _ rfl,
    (agrees_parenthesised _ hys).quoteTokensFrom_eq, List.append_assoc, List.cons_append]
  rfl

/-- **Main.**  A parenthesised part of a statement does not matter to the rest: whatever
balanced part stands between the parentheses, quoting makes the same of every token before
them, and the same of every token behind them. -/
theorem quoteReserved_parenthesised (table : ReservedWords) {before part part' behind : Text}
    (hpart : Balanced part) (hpart' : Balanced part') (hseam : Seamless before part behind)
    (hseam' : Seamless before part' behind) :
    ∃ xs ys ys' ss : List Token,
      List.Forall₂ (Requoted (Quotable table)) (tokenize before) xs ∧
      List.Forall₂ (Requoted (Quotable table)) (tokenize part) ys ∧
      List.Forall₂ (Requoted (Quotable table)) (tokenize part') ys' ∧
      List.Forall₂ (Requoted (Quotable table)) (tokenize behind) ss ∧
      tokenize (quoteReserved table (enclosed before part behind)) =
        xs ++ openParen :: ys ++ closeParen :: ss ∧
      tokenize (quoteReserved table (enclosed before part' behind)) =
        xs ++ openParen :: ys' ++ closeParen :: ss := by
  refine ⟨quotedAhead table (tokenize before), quotedInside table (tokenize before) (tokenize part),
    quotedInside table (tokenize before) (tokenize part'),
    quotedBehind table (tokenize before) (tokenize behind), quotedBefore_requoted ..,
    quotedBefore_requoted .., quotedBefore_requoted .., quoteTokensFrom_requoted .., ?_, ?_⟩
  · rw [tokenize_quoteReserved, hseam]
    exact quoteTokens_parenthesised table _ _ hpart
  · rw [tokenize_quoteReserved, hseam']
    exact quoteTokens_parenthesised table _ _ hpart'

/-- A query in place of a number: the columns and the table behind it are quoted alike. -/
theorem quoteReserved_subquery :
    let table : ReservedWords := ⟨["ORDER", "DATE"]⟩
    let before : Text := "SELECT ORDER, "
    let part : Text := "1"
    let part' : Text := "SELECT MAX(DATE) FROM ORDER WHERE (A IN (1, 2))"
    let behind : Text := ", DATE FROM ORDER ORDER BY DATE"
    Balanced part ∧ Balanced part' ∧ Seamless before part behind ∧ Seamless before part' behind ∧
    ∃ xs ys ys' ss : List Token,
      List.Forall₂ (Requoted (Quotable table)) (tokenize before) xs ∧
      List.Forall₂ (Requoted (Quotable table)) (tokenize part) ys ∧
      List.Forall₂ (Requoted (Quotable table)) (tokenize part') ys' ∧
      List.Forall₂ (Requoted (Quotable table)) (tokenize behind) ss ∧
      tokenize (quoteReserved table (enclosed before part behind)) =
        xs ++ openParen :: ys ++ closeParen :: ss ∧
      tokenize (quoteReserved table (enclosed before part' behind)) =
        xs ++ openParen :: ys' ++ closeParen :: ss := by
  intro table before part part' behind
  have hpart : Balanced part := by decide +kernel
  have hpart' : Balanced part' := by decide +kernel
  have hseam : Seamless before part behind := by decide +kernel
  have hseam' : Seamless before part' behind := by decide +kernel
  exact ⟨hpart, hpart', hseam, hseam', quoteReserved_parenthesised table hpart hpart' hseam hseam'⟩

end PascalSurvey.Sql
