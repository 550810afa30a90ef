/-
PascalSurvey/Config/Load.lean

The configuration in force at a place.  It comes in layers: the file of the project, over it
the environment, over it what the caller demands.  Only the result of all layers has to make
sense, so a bad value in the file does no harm when a higher layer replaces it.
-/
import PascalSurvey.Bound
import PascalSurvey.Config.Toml
import PascalSurvey.FileTree

namespace PascalSurvey

/-- The environment: variables with their values. -/
abbrev Environment := List (Text × Text)

/-- The value of a variable.  One that is no UTF-8 does not count. -/
def Environment.get? (env : Environment) (name : Text) : Option Text :=
  (List.lookup name env).filter Utf8.isValid

namespace Config

/-- Settings that replace those of lower layers. -/
structure Overrides where
  maxFileSize : Option Nat
  threads : Option Nat
  batchConcurrency : Option Nat
  quoteReserved : Option Bool
  deriving Repr, DecidableEq

/-- A configuration under a layer of overrides. -/
def override (c : Config) (o : Overrides) : Config where
  scan := { c.scan with
    maxFileSize := o.maxFileSize.or c.scan.maxFileSize
    threads := o.threads.or c.scan.threads
    batchConcurrency := o.batchConcurrency.or c.scan.batchConcurrency }
  sql := { c.sql with quoteReserved := o.quoteReserved.or c.sql.quoteReserved }

/-! ### The environment -/

/-- A number below 2^64 in decimal digits, with or without a plus sign. -/
def numeral? (t : Text) : Option Nat :=
  let digits := (Text.after? "+" t).getD t
  let n := Text.digitsValue 10 digits
  if !digits.isEmpty && digits.all Ascii.isDigit && n < Bound.word64 then some n else none

/-- Exactly `true` or `false`. -/
def flag? (t : Text) : Option Bool :=
  if t = "true" then some true else if t = "false" then some false else none

/-- The layer of the environment.  A value that cannot be read does not count. -/
def Overrides.ofEnvironment (env : Environment) : Overrides where
  maxFileSize := (env.get? "QUARRY_SCAN_MAX_FILE_SIZE").bind numeral?
  threads := (env.get? "QUARRY_SCAN_THREADS").bind numeral?
  batchConcurrency := (env.get? "QUARRY_BATCH_CONCURRENCY").bind numeral?
  quoteReserved := (env.get? "QUARRY_SQL_QUOTE_RESERVED").bind flag?

/-! ### The file -/

/-- A configuration over a lower one: a setting that it does not give keeps the lower value.
An empty list gives nothing. -/
def orElse (c lower : Config) : Config where
  scan := {
    maxFileSize := c.scan.maxFileSize.or lower.scan.maxFileSize
    threads := c.scan.threads.or lower.scan.threads
    batchConcurrency := c.scan.batchConcurrency.or lower.scan.batchConcurrency
    extraSystemPrefixes :=
      if c.scan.extraSystemPrefixes.isEmpty then lower.scan.extraSystemPrefixes
      else c.scan.extraSystemPrefixes
    unitExtensions :=
      if c.scan.unitExtensions.isEmpty then lower.scan.unitExtensions else c.scan.unitExtensions
    extractSql := c.scan.extractSql.or lower.scan.extractSql }
  sql := {
    extraReservedWords :=
      if c.sql.extraReservedWords.isEmpty then lower.sql.extraReservedWords
      else c.sql.extraReservedWords
    quoteReserved := c.sql.quoteReserved.or lower.sql.quoteReserved }

/-- The name of the configuration file. -/
def fileName : Text := "quarry.toml"

/-- The path of the configuration file for a root; a root that is a file stands for its
directory. -/
def filePath (tree : FileTree) (root : Path) : Path :=
  let directory := if tree.isFile root then (Path.parent? root).getD root else root
  Path.join directory fileName

/-- The configuration of a file, before validation. -/
def readFile (tree : FileTree) (path : Path) : Except Error Config :=
  match tree.read path with
  | .error _ => .error (.fileNotFound (Path.display path))
  | .ok bytes =>
    if Utf8.isValid bytes then
      match parse? bytes with
      | some c => .ok c
      | none => .error (malformedIn (Path.display path))
    else .error (.fileNotFound (Path.display path))

/-- The layer of the file over the defaults; a file that is not there leaves these as they are. -/
def fileLayer (tree : FileTree) (root : Path) : Except Error Config :=
  let path := filePath tree root
  if tree.exists? path then (readFile tree path).map fun c => c.orElse default else .ok default

/-- The configuration in force for a root. -/
def load (tree : FileTree) (env : Environment) (root : Path) (overrides : Option Overrides) :
    Except Error Config := do
  let file ← fileLayer tree root
  let c := file.override (.ofEnvironment env)
  match overrides with
  | some o => (c.override o).validate
  | none => c.validate

end Config
end PascalSurvey
