/-
PascalSurvey/Survey/Unit.lean

The survey of one unit: its text gives the used units, the declared types, the routines and
the queries in them, and its form file gives the form.
-/
import PascalSurvey.Config.Basic
import PascalSurvey.Outline.Basic
import PascalSurvey.Project.Basic
import PascalSurvey.Sql.Quoting
import PascalSurvey.Survey.Error

namespace PascalSurvey.Survey

/-- What a survey of a unit finds. -/
structure UnitFacts where
  unit : SourceUnit
  form : Option Form
  /-- What went wrong without stopping the survey of the unit. -/
  warnings : List Warning
  deriving Repr, DecidableEq

def formAncestors : List Text := ["TForm", "TFrame"]
def dataModuleAncestors : List Text := ["TDataModule"]

/-! ### Queries -/

/-- The words that are quoted in queries, if any are. -/
def quotedWords? (c : Config) : Option Sql.ReservedWords :=
  if c.quotesReserved then some (.withExtra c.sql.extraReservedWords) else none

/-- A query with its reserved words quoted.  The marker for unknown text stays. -/
def quoteQuery (words : Sql.ReservedWords) (q : Sql.Query) : Sql.Query :=
  if q.isFullyDynamic then q else { q with sql := Sql.quoteReserved words q.sql }

/-- The queries of routines, as the configuration wants them. -/
def queriesOf (c : Config) (methods : List Routine.Method) : List Sql.Query :=
  let queries := methods.flatMap Sql.extract
  match quotedWords? c with
  | some words => queries.map (quoteQuery words)
  | none => queries

/-! ### Warnings -/

/-- The warning about a routine whose body does not end. -/
def unterminated (file : Path) (m : Routine.Method) : Warning :=
  .about .unterminatedMethod file (Text.ofString "Method '" ++ m.fullName ++
    Text.ofString "' at line " ++ Text.ofNat m.startLine ++ Text.ofString " has no closing end")

/-! ### Forms -/

/-- The form in a form file, and the warning if there is none to be read. -/
def readForm (tree : FileTree) (unitName : Text) (file : Path) : Option Form × Option Warning :=
  match tree.read file with
  | .error e => (none, some (.about .unreadableFile file e.message))
  | .ok bytes => match Form.read bytes unitName file with
    | .parsed form => (some form, none)
    | .binary => (none, some (.about .unreadableFile file "binary form file not decoded"))
    | .empty => (none, none)

/-! ### Units -/

/-- The facts of a unit whose text is known.  `file` names the unit if the text does not. -/
def surveyText (tree : FileTree) (c : Config) (t : Text) (file : Path) (u : SourceUnit) :
    UnitFacts :=
  let outline := Outline.ofText t file
  let (body, firstLine) := outline.body t
  let methods := Routine.Method.extract body firstLine
  let (form, formWarning) := match u.formFile with
    | some formFile => readForm tree outline.name formFile
    | none => (none, none)
  { unit := { u with
      name := outline.name
      size := t.length
      lineCount := outline.lineCount
      isForm := u.formFile.isSome || outline.derivesFrom formAncestors
      isDataModule := outline.derivesFrom dataModuleAncestors
      interfaceUses := outline.interfaceUses.map (·.name)
      implementationUses := outline.implementationUses.map (·.name)
      types := outline.types
      methods
      queries := if c.extractsSql then queriesOf c methods else u.queries }
    form
    warnings := (methods.filter (!·.terminated)).map (unterminated file) ++ formWarning.toList }

/-- The text of a file: a byte order mark does not count, and what is no UTF-8 is replaced. -/
def decode (bytes : List UInt8) : Text := Utf8.lossy (Utf8.withoutMark bytes)

/-- The bytes of a unit file that is not too large. -/
def readUnit (tree : FileTree) (c : Config) (file : Path) : Except UnitError (List UInt8) :=
  match tree.read file with
  | .error e => .error (.unreadable file e)
  | .ok bytes =>
    if c.sizeLimit < bytes.length then .error (.tooLarge file bytes.length c.sizeLimit)
    else .ok bytes

/-- The facts of a unit, or the warning that it cannot be surveyed. -/
def surveyUnit (tree : FileTree) (c : Config) (u : SourceUnit) : Except Warning UnitFacts :=
  match u.file with
  | none => .error (.plain .missingFile
      (Text.ofString "Unit '" ++ u.name ++ Text.ofString "' has no file to scan"))
  | some file => match readUnit tree c file with
    | .error e => .error e.toWarning
    | .ok bytes =>
      let facts := surveyText tree c (decode bytes) file u
      .ok { facts with unit := { facts.unit with size := bytes.length } }

end PascalSurvey.Survey
