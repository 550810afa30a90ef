/-
PascalSurvey/Sql/Quoting.lean

Quoting of reserved words that are used as identifiers.  A walk over the tokens of a
statement decides about each word by the significant tokens next to it and by the clause it
stands in; clauses are kept per level of parentheses.  Words that give a statement its
structure are never quoted.

`quoteTokens` gives the tokens with quoted words in place of some plain ones, and
`quoteReserved` their text.
-/
import PascalSurvey.Sql.Reserved
import PascalSurvey.Sql.Token

namespace PascalSurvey.Sql

open Ascii

/-- Words that stay as they are even when reserved. -/
def neverQuoted : List Text :=
  Text.ofStrings
    ["SELECT", "DISTINCT", "ALL", "FROM", "JOIN", "INTO", "UPDATE", "DELETE", "INSERT", "WHERE",
      "ON", "HAVING", "SET", "VALUES", "BY", "AS", "AND", "OR", "NOT", "NULL", "TRUE", "FALSE",
      "IS", "IN", "LIKE", "BETWEEN", "EXISTS", "CASE", "WHEN", "THEN", "ELSE", "END", "ANY", "SOME",
      "ASC", "DESC", "LEFT", "RIGHT", "INNER", "OUTER", "FULL", "CROSS", "NATURAL", "UNION",
      "FIRST", "SKIP", "ROWS", "TO", "RETURNING", "MATCHING", "USING", "WITH", "RECURSIVE", "PLAN",
      "MERGE", "DEFAULT", "ESCAPE", "SIMILAR", "CONTAINING", "STARTING", "FOR", "OFFSET", "FETCH",
      "ONLY", "EXECUTE", "PROCEDURE", "CREATE", "ALTER", "DROP", "RECREATE", "TABLE", "VIEW",
      "INDEX", "TRIGGER", "GENERATOR", "SEQUENCE", "USER", "CURRENT_DATE", "CURRENT_TIME",
      "CURRENT_TIMESTAMP", "CURRENT_USER", "CURRENT_ROLE", "CURRENT_CONNECTION",
      "CURRENT_TRANSACTION"]

/-- Words after which the name of a table stands. -/
def tableIntroducers : List Text := ["FROM", "JOIN", "INTO", "UPDATE", "TABLE", "PROCEDURE"]

def comparisonOperators : List Text := ["=", "<>", "!=", "<", ">", "<=", ">="]

/-- The clauses that matter to quoting. -/
inductive Clause where
  | other
  | select
  | source
  | orderList
  | intoColumns
  deriving Repr, DecidableEq

/-! ### Decisions -/

/-- The clause that a word begins; `prev` is the significant token before it. -/
def clauseAfter? (word : Text) (prev : Option Token) : Option Clause :=
  let w := Text.toUpper word
  if w = "SELECT" then some .select
  else if w = "FROM" ∨ w = "JOIN" then some .source
  else if w = "BY" then
    some (if prev.any (·.isWordIn ["ORDER", "GROUP"]) then .orderList else .other)
  else if w ∈ (["WHERE", "HAVING", "ON", "SET", "VALUES", "INTO", "UPDATE", "UNION", "PLAN",
      "RETURNING"] : List Text) then some .other
  else none

/-- Whether the place of a word in its clause makes it an identifier. -/
def isListItem (prev next : Option Token) : Clause → Bool
  | .select =>
    (prev.any (·.isWordIn ["SELECT", "DISTINCT", "ALL"]) || prev.any (·.isPunct ",")) &&
    (next.isNone || next.any (·.isPunct ",") || next.any (·.isPunct ")") ||
      next.any (·.isWordIn ["FROM", "AS"]))
  | .source => prev.any (·.isPunct ",")
  | .orderList => prev.any (·.isPunct ",") || prev.any (·.isWord "BY")
  | .intoColumns => prev.any (·.isPunct ",") || prev.any (·.isPunct "(")
  | .other => false

/-- Whether a reserved word is used as an identifier. -/
def isIdentifier (token : Token) (prev next : Option Token) (clause : Clause) : Bool :=
  if token.isWordIn neverQuoted then false
  else if token.isWordIn ["ORDER", "GROUP"] && next.any (·.isWord "BY") then false
  else if prev.any (·.isWordIn tableIntroducers) then true
  else if next.any (·.isPunct "(") then false
  else if prev.any (·.isPunct ".") || next.any (·.isPunct ".") then true
  else if comparisonOperators.any fun op => prev.any (·.isPunct op) || next.any (·.isPunct op) then
    true
  else if prev.any (·.isWord "AS") then true
  else isListItem prev next clause

/-! ### The walk -/

/-- What the walk knows before a token. -/
structure Context where
  /-- The significant token before. -/
  prev : Option Token
  /-- The significant token before that. -/
  prev2 : Option Token
  /-- The clause of the current level. -/
  clause : Clause
  /-- The clauses of the levels around it, innermost first. -/
  outer : List Clause
  deriving Repr

def Context.initial : Context := ⟨none, none, .other, []⟩

/-- The token in place of a significant token, and what is known after it. -/
def stepToken (table : ReservedWords) (ctx : Context) (token : Token) (next : Option Token) :
    Token × Context :=
  let ctx' := { ctx with prev := some token, prev2 := ctx.prev }
  match token.kind with
  | .punct =>
    if token.text = [lparen] then
      let columns := ctx.prev.any Token.isName && ctx.prev2.any (·.isWord "INTO")
      (token, { ctx' with
        clause := if columns then .intoColumns else ctx.clause
        outer := ctx.clause :: ctx.outer })
    else if token.text = [rparen] then
      match ctx.outer with
      | [] => (token, ctx')
      | c :: outer => (token, { ctx' with clause := c, outer })
    else (token, ctx')
  | .word =>
    match clauseAfter? token.text ctx.prev with
    | some clause => (token, { ctx' with clause })
    | none =>
      if table.contains token.text && isIdentifier token ctx.prev next ctx.clause then
        (⟨.quotedName, quoted token.text⟩, ctx')
      else (token, ctx')
  | _ => (token, ctx')

/-- The tokens with reserved words that are used as identifiers quoted. -/
def quoteTokensFrom (table : ReservedWords) (ctx : Context) : List Token → List Token
  | [] => []
  | token :: rest =>
    if token.isSignificant then
      let (token, ctx) := stepToken table ctx token (rest.find? Token.isSignificant)
      token :: quoteTokensFrom table ctx rest
    else token :: quoteTokensFrom table ctx rest

def quoteTokens (table : ReservedWords) (tokens : List Token) : List Token :=
  quoteTokensFrom table Context.initial tokens

/-- A statement with reserved words that are used as identifiers quoted. -/
def quoteReserved (table : ReservedWords) (sql : Text) : Text :=
  (quoteTokens table (tokenize sql)).flatMap Token.text

end PascalSurvey.Sql
