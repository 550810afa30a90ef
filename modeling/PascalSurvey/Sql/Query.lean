/-
PascalSurvey/Sql/Query.lean

Queries that a method gives to dataset components.  Two shapes are recognised: a `Clear` of
a component's SQL lines followed by `Add` calls for the same component, and an assignment to
its SQL text.  A query whose text is not known at all is reported with a marker instead.
-/
import PascalSurvey.Routine.Method
import PascalSurvey.Sql.Expression
import PascalSurvey.Sql.Parameters
import PascalSurvey.Sql.Statement

namespace PascalSurvey.Sql

open Ascii

/-- The text of a query of which nothing is known. -/
def dynamicSql : Text := "Dynamic SQL"

/-- The shape of the statements that a query was read from. -/
inductive Origin where
  | addSequence
  | textAssignment
  deriving Repr, DecidableEq

/-- A query found in a method. -/
structure Query where
  sql : Text
  /-- Whether some part of the text is known only at run time. -/
  isDynamic : Bool
  line : Nat
  method : Text
  className : Option Text
  origin : Origin
  parameters : List Text
  /-- The component that the query belongs to. -/
  component : Text
  deriving Repr, DecidableEq

/-- Whether nothing of the text is known. -/
def Query.isFullyDynamic (q : Query) : Bool := q.sql == dynamicSql

/-! ### Query texts -/

/-- The words that begin a query. -/
def verbs : List Text :=
  ["SELECT", "INSERT", "UPDATE OR INSERT", "UPDATE", "DELETE", "EXECUTE", "CREATE", "ALTER",
    "DROP", "SET GENERATOR", "WITH"]

/-- Whether a text is a query: the marker, or a text that begins with a verb. -/
def isQuery (sql : Text) : Bool :=
  sql == dynamicSql ||
  verbs.any fun v => match Text.after? v (Text.toUpper (Text.trimStart sql)) with
    | some rest => !rest.head?.any isIdentByte
    | none => false

/-- The text of consecutive `Add` calls and whether it is dynamic. -/
def joinChunks (chunks : List Resolved) : Text × Bool :=
  if chunks.all (·.fullyDynamic) then (dynamicSql, true)
  else (Text.join [space] (chunks.map (·.text)), chunks.any (·.isDynamic))

/-- The text of an assignment and whether it is dynamic. -/
def assignedText (r : Resolved) : Text × Bool :=
  if r.fullyDynamic then (dynamicSql, true) else (r.text, r.isDynamic)

/-! ### Statements on components -/

/-- A member of the SQL lines of a component: the component, the property that holds the
lines, and what is left of the statement. -/
structure Access where
  component : Text
  property : Text
  rest : Text
  deriving Repr, DecidableEq

/-- Whether a text is exactly a word, in any case. -/
def spells (word t : Text) : Bool := Text.matchFold? word t == some t.length

/-- The access to `member` that a statement begins with. -/
def access? (member t : Text) : Option Access := do
  let n := Utf8.run (fun c => isWordChar c || c == 0x2E) t
  let (owner, name) ← Text.cutLast? dot (t.take n)
  let (component, property) ← Text.cutLast? dot owner
  if spells member name && (spells "sql" property || spells "selectsql" property) &&
      (Text.identStartFold? component).isSome then
    some ⟨component, property, t.drop n⟩
  else none

/-- Whether a text is empty or a pair of parentheses. -/
def isEmptyCall (t : Text) : Bool :=
  t.isEmpty ||
  match Text.trimStart t with
  | lparen :: r => match Text.trimStart r with
    | [rparen] => true
    | _ => false
  | _ => false

/-- A statement that clears the SQL lines of a component. -/
def clear? (t : Text) : Option Access :=
  (access? "clear" t).filter fun a => isEmptyCall a.rest

/-- The expression that a statement adds to the SQL lines of a component. -/
def addedExpression? (component property t : Text) : Option Text := do
  let a ← access? "add" t
  let call := Text.trimStart a.rest
  if call.head? = some lparen ∧ Text.eqFold a.component component ∧
      Text.eqFold a.property property then
    let close ← Source.closing? 0 call
    if close + 1 = call.length then some (Text.slice call 1 close) else none
  else none

/-- The component and the expression of an assignment to a SQL text. -/
def assignment? (t : Text) : Option (Text × Text) := do
  let a ← access? "text" t
  let expression ← Text.after? ":=" (Text.trimStart a.rest)
  some (a.component, expression)

/-- The name of a component without a leading `Self`. -/
def componentName (component : Text) : Text :=
  (Text.afterFold? "self." component).getD component

/-! ### Extraction -/

/-- A query text with the statement it starts at. -/
structure Finding where
  statement : Statement
  sql : Text
  isDynamic : Bool
  origin : Origin
  component : Text
  deriving Repr, DecidableEq

/-- The expressions of the `Add` calls at the head of a list of statements. -/
def addedExpressions (component property : Text) (ss : List Statement) : List Text :=
  match ss with
  | [] => []
  | s :: rest => match addedExpression? component property s.text with
    | some e => e :: addedExpressions component property rest
    | none => []

/-- The finding of a text, if it is a query. -/
def Finding.of? (s : Statement) (text : Text × Bool) (origin : Origin) (component : Text) :
    List Finding :=
  if isQuery text.1 then [⟨s, text.1, text.2, origin, component⟩] else []

/-- The query texts of a list of statements. -/
def findings : List Statement → List Finding
  | [] => []
  | s :: rest => match clear? s.text with
    | some a =>
      let added := addedExpressions a.component a.property rest
      if added.isEmpty then findings rest
      else
        Finding.of? s (joinChunks (added.map resolve)) .addSequence a.component ++
          findings (rest.drop added.length)
    | none => match assignment? s.text with
      | some (component, e) =>
        Finding.of? s (assignedText (resolve e)) .textAssignment component ++ findings rest
      | none => findings rest
termination_by ss => ss.length
decreasing_by all_goals simp only [List.length_drop, List.length_cons]; omega

/-- The queries of a source text whose first line is `firstLine`. -/
def extractFrom (source : Text) (firstLine : Nat) (method : Text) (className : Option Text) :
    List Query :=
  let clean := Source.mask .comments source
  (findings ((Statement.split clean).map Statement.strip)).map fun f =>
    { sql := f.sql
      isDynamic := f.isDynamic
      line := firstLine + Text.breaks (clean.take f.statement.offset)
      method
      className
      origin := f.origin
      parameters := parametersOf f.sql
      component := componentName f.component }

/-- The queries of a method. -/
def extract (m : Routine.Method) : List Query :=
  extractFrom m.source m.startLine m.name m.className

end PascalSurvey.Sql
