/-
PascalSurvey/Config/Basic.lean

The configuration of a survey.  A setting that is not given has a default; the functions that
survey code calls (`sizeLimit`, `workers`, …) give the value in force.  `validate` refuses
values that make no sense.
-/
import PascalSurvey.Config.Error

namespace PascalSurvey

/-- How units are found and surveyed. -/
structure ScanSettings where
  /-- The largest size of a unit file, in bytes. -/
  maxFileSize : Option Nat
  threads : Option Nat
  /-- How many projects a batch surveys at a time. -/
  batchConcurrency : Option Nat
  /-- Prefixes of unit names that belong to libraries. -/
  extraSystemPrefixes : List Text
  /-- The extensions of unit files. -/
  unitExtensions : List Text
  extractSql : Option Bool
  deriving Repr, DecidableEq

/-- How queries are reported. -/
structure SqlSettings where
  extraReservedWords : List Text
  quoteReserved : Option Bool
  deriving Repr, DecidableEq

/-- A configuration. -/
structure Config where
  scan : ScanSettings
  sql : SqlSettings
  deriving Repr, DecidableEq

namespace Config

/-- The configuration in which nothing is given. -/
def default : Config := ⟨⟨none, none, none, [], [], none⟩, ⟨[], none⟩⟩

/-! ### Values in force -/

/-- The largest size of a unit file: 8 MiB unless given. -/
def sizeLimit (c : Config) : Nat := c.scan.maxFileSize.getD (8 * 1024 * 1024)

def workers (c : Config) : Nat := c.scan.threads.getD 0

/-- How many projects a batch surveys at a time: 4 unless given, and never none. -/
def concurrency (c : Config) : Nat := max (c.scan.batchConcurrency.getD 4) 1

def defaultExtensions : List Text := [".pas", ".pp", ".inc"]

/-- The extension with a dot before it. -/
def dotted (extension : Text) : Text :=
  if extension.head? = some Ascii.dot then extension else Ascii.dot :: extension

/-- The extensions of unit files in the order in which they are tried, each with its dot. -/
def extensions (c : Config) : List Text :=
  if c.scan.unitExtensions.isEmpty then defaultExtensions else c.scan.unitExtensions.map dotted

def extractsSql (c : Config) : Bool := c.scan.extractSql.getD true

def quotesReserved (c : Config) : Bool := c.sql.quoteReserved.getD false

/-! ### Validation -/

/-- Whether an extension holds nothing but dots. -/
def isBlankExtension (extension : Text) : Bool := extension.all (· == Ascii.dot)

/-- The first setting that makes no sense. -/
def fault? (c : Config) : Option Error :=
  if c.scan.maxFileSize = some 0 then
    some (.invalid "scan.max_file_size" "must be greater than 0")
  else if c.scan.batchConcurrency = some 0 then
    some (.invalid "scan.batch_concurrency" "must be at least 1")
  else (c.scan.unitExtensions.find? isBlankExtension).map fun extension =>
    .invalid "scan.unit_extensions"
      (Text.ofString "invalid extension '" ++ extension ++ Text.ofString "'")

/-- The configuration itself, unless a setting makes no sense. -/
def validate (c : Config) : Except Error Config :=
  match c.fault? with
  | some e => .error e
  | none => .ok c

end Config
end PascalSurvey
