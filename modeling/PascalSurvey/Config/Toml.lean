/-
PascalSurvey/Config/Toml.lean

Configurations as TOML.  A configuration has the tables `scan` and `sql`; unknown keys do not
matter, and a known key with a value of the wrong type makes the whole text unusable.  Each
of the two tables may also be given as an array of its values in order, or as a date, which
gives a value to none of its keys.
-/
import PascalSurvey.Bound
import PascalSurvey.Config.Basic
import PascalSurvey.Toml.Reader
import PascalSurvey.Toml.Writer

namespace PascalSurvey.Config

open Toml (Entries)

/-! ### Reading -/

def nat? : Toml → Option Nat
  | .integer n => if 0 ≤ n then some n.toNat else none
  | _ => none

def bool? : Toml → Option Bool
  | .boolean b => some b
  | _ => none

def text? : Toml → Option Text
  | .string t => some t
  | _ => none

def texts? : Toml → Option (List Text)
  | .array items => items.mapM text?
  | _ => none

/-- The values that a table, or an array or a date in its place, gives to the named keys. -/
def values? (keys : List Text) : Toml → Option (List (Option Toml))
  | .table _ entries => some (keys.map fun key => List.lookup key entries)
  | .array items | .tables items => some ((List.range keys.length).map (items[·]?))
  | .date => some (keys.map fun _ => none)
  | _ => none

/-- A value that may be missing. -/
def optional {α : Type} (read : Toml → Option α) : Option Toml → Option (Option α)
  | some v => (read v).map some
  | none => some none

/-- A list that is empty if it is missing. -/
def listOrNone : Option Toml → Option (List Text)
  | some v => texts? v
  | none => some []

def scanKeys : List Text :=
  ["max_file_size", "threads", "batch_concurrency", "extra_system_prefixes", "unit_extensions",
    "extract_sql"]

def scanSettings? (v : Toml) : Option ScanSettings :=
  match values? scanKeys v with
  | some [a, b, c, d, e, f] => do
    some {
      maxFileSize := ← optional nat? a
      threads := ← optional nat? b
      batchConcurrency := ← optional nat? c
      extraSystemPrefixes := ← listOrNone d
      unitExtensions := ← listOrNone e
      extractSql := ← optional bool? f }
  | _ => none

def sqlKeys : List Text := ["extra_reserved_words", "quote_reserved"]

def sqlSettings? (v : Toml) : Option SqlSettings :=
  match values? sqlKeys v with
  | some [a, b] => do
    some ⟨← listOrNone a, ← optional bool? b⟩
  | _ => none

/-- The configuration of a document. -/
def ofEntries? (entries : Entries) : Option Config := do
  let scan ← optional scanSettings? (List.lookup (Text.ofString "scan") entries)
  let sql ← optional sqlSettings? (List.lookup (Text.ofString "sql") entries)
  some ⟨scan.getD default.scan, sql.getD default.sql⟩

/-- The configuration that a text writes, before validation. -/
def parse? (t : Text) : Option Config := do ofEntries? (← Toml.parse? t)

/-- The error for a file whose text writes no configuration. -/
def malformedIn (file : Text) : Error := .malformed file "not a configuration"

/-- The valid configuration that a text writes. -/
def ofToml (t : Text) : Except Error Config :=
  match parse? t with
  | some c => c.validate
  | none => .error (malformedIn "<string>")

/-! ### Writing -/

/-- Whether a number can be written: it must fit into 63 bits. -/
def isWritable (n : Option Nat) : Bool := n.all (· < Bound.signed64)

def ScanSettings.toToml (s : ScanSettings) : Text :=
  Text.ofString "[scan]\n" ++
  Toml.writeOption "max_file_size" Text.ofNat s.maxFileSize ++
  Toml.writeOption "threads" Text.ofNat s.threads ++
  Toml.writeOption "batch_concurrency" Text.ofNat s.batchConcurrency ++
  Toml.writePair "extra_system_prefixes" (Toml.writeStrings s.extraSystemPrefixes) ++
  Toml.writePair "unit_extensions" (Toml.writeStrings s.unitExtensions) ++
  Toml.writeOption "extract_sql" Toml.writeBool s.extractSql

def SqlSettings.toToml (s : SqlSettings) : Text :=
  Text.ofString "[sql]\n" ++
  Toml.writePair "extra_reserved_words" (Toml.writeStrings s.extraReservedWords) ++
  Toml.writeOption "quote_reserved" Toml.writeBool s.quoteReserved

/-- The text of a configuration; none if it has a number that cannot be written. -/
def toToml? (c : Config) : Option Text :=
  if isWritable c.scan.maxFileSize && isWritable c.scan.threads &&
      isWritable c.scan.batchConcurrency then
    some (ScanSettings.toToml c.scan ++ Text.ofString "\n" ++ SqlSettings.toToml c.sql)
  else none

end PascalSurvey.Config
