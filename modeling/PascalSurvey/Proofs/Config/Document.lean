/-
PascalSurvey/Proofs/Config/Document.lean

What a document says of a configuration.  Each setting is the value of one key in one of the
tables `scan` and `sql` (`DescribesScan`, `DescribesSql`).  A key that is missing leaves its
setting open, and so does a table that is missing; a key that no setting belongs to says
nothing.  In the place of a table there may be an array, which gives its values to the keys in
their order, or a date, which gives none (`TableGives`).

Main result: exactly the configuration that a document describes is read from it, and none if a
value is of the wrong kind (`ofEntries?_eq_some_iff`).
-/
import Mathlib.Data.List.Nodup
import PascalSurvey.Config.Toml

namespace PascalSurvey.Config

open Toml (Entries)

/-! ### The values of settings -/

/-- A value is a number, and not a negative one. -/
inductive IsNumber : Toml → Nat → Prop
  | intro (n : Nat) : IsNumber (.integer n) n

/-- A value is a truth value. -/
inductive IsFlag : Toml → Bool → Prop
  | intro (b : Bool) : IsFlag (.boolean b) b

/-- A value is a list of texts. -/
inductive IsTexts : Toml → List Text → Prop
  | intro (ts : List Text) : IsTexts (.array (ts.map .string)) ts

/-- A setting is open where its value is missing. -/
inductive Gives {α : Type} (Is : Toml → α → Prop) : Option Toml → Option α → Prop
  | missing : Gives Is none none
  | given {v : Toml} {a : α} : Is v a → Gives Is (some v) (some a)

/-- A list is empty where its value is missing. -/
inductive GivesTexts : Option Toml → List Text → Prop
  | missing : GivesTexts none []
  | given {v : Toml} {ts : List Text} : IsTexts v ts → GivesTexts (some v) ts

theorem nat?_eq_some_iff {v : Toml} {n : Nat} : nat? v = some n ↔ IsNumber v n := by
  constructor
  · intro h
    cases v with
    | integer i =>
      obtain ⟨hi, rfl⟩ := Option.ite_none_right_eq_some.mp h |>.imp_right Option.some.inj
      rw [← Int.toNat_of_nonneg hi, Int.toNat_natCast]
      exact .intro _
    | _ => cases h
  · rintro ⟨n⟩
    rfl

theorem bool?_eq_some_iff {v : Toml} {b : Bool} : bool? v = some b ↔ IsFlag v b := by
  constructor
  · intro h
    cases v with
    | boolean b' =>
      obtain rfl := Option.some.inj h
      exact .intro _
    | _ => cases h
  · rintro ⟨b⟩
    rfl

theorem mapM_text?_eq_some_iff {items : List Toml} {ts : List Text} :
    items.mapM text? = some ts ↔ items = ts.map .string := by
  induction items generalizing ts with
  | nil => cases ts <;> simp
  | cons v items ih =>
    rw [List.mapM_cons]
    cases ts with
    | nil => cases v <;> simp [text?, Option.bind_eq_some_iff]
    | cons t ts => cases v <;> simp [text?, Option.bind_eq_some_iff, ih, and_comm]

theorem texts?_eq_some_iff {v : Toml} {ts : List Text} : texts? v = some ts ↔ IsTexts v ts := by
  constructor
  · intro h
    cases v with
    | array items =>
      obtain rfl := mapM_text?_eq_some_iff.mp h
      exact .intro _
    | _ => cases h
  · rintro ⟨ts⟩
    exact mapM_text?_eq_some_iff.mpr rfl

theorem optional_eq_some_iff {α : Type} {Is : Toml → α → Prop} {read : Toml → Option α}
    (hread : ∀ {v a}, read v = some a ↔ Is v a) {v? : Option Toml} {a? : Option α} :
    optional read v? = some a? ↔ Gives Is v? a? := by
  constructor
  · intro h
    cases v? with
    | none =>
      obtain rfl := Option.some.inj h
      exact .missing
    | some v =>
      obtain ⟨a, ha, rfl⟩ := Option.map_eq_some_iff.mp h
      exact .given (hread.mp ha)
  · rintro (_ | h)
    · rfl
    · exact congrArg (Option.map some) (hread.mpr h)

theorem listOrNone_eq_some_iff {v? : Option Toml} {ts : List Text} :
    listOrNone v? = some ts ↔ GivesTexts v? ts := by
  constructor
  · intro h
    cases v? with
    | none =>
      obtain rfl := Option.some.inj h
      exact .missing
    | some v => exact .given (texts?_eq_some_iff.mp h)
  · rintro (_ | h)
    · rfl
    · exact texts?_eq_some_iff.mpr h

/-! ### Tables -/

/-- The values that a table, or what stands in its place, gives to the keys of settings. -/
inductive TableGives (keys : List Text) : Option Toml → (Text → Option Toml) → Prop
  | missing : TableGives keys none fun _ => none
  | table (kind : Toml.TableKind) (entries : Entries) :
      TableGives keys (some (.table kind entries)) fun key => List.lookup key entries
  | array (items : List Toml) :
      TableGives keys (some (.array items)) fun key => items[keys.idxOf key]?
  | tables (items : List Toml) :
      TableGives keys (some (.tables items)) fun key => items[keys.idxOf key]?
  | date : TableGives keys (some .date) fun _ => none

/-- The values of an array in order are those of the keys. -/
theorem map_range_getElem? {keys : List Text} (hkeys : keys.Nodup) (items : List Toml) :
    (List.range keys.length).map (items[·]?) = keys.map fun key => items[keys.idxOf key]? := by
  refine List.ext_getElem (by simp) fun i hi hi' => ?_
  rw [List.getElem_map, List.getElem_map, List.getElem_range, hkeys.idxOf_getElem]

theorem values?_eq_some_iff {keys : List Text} (hkeys : keys.Nodup) {v : Toml}
    {vs : List (Option Toml)} :
    values? keys v = some vs ↔ ∃ value, TableGives keys (some v) value ∧ vs = keys.map value := by
  constructor
  · intro h
    cases v with
    | table kind entries => exact ⟨_, .table kind entries, (Option.some.inj h).symm⟩
    | array items =>
      exact ⟨_, .array items, (Option.some.inj h).symm.trans (map_range_getElem? hkeys items)⟩
    | tables items =>
      exact ⟨_, .tables items, (Option.some.inj h).symm.trans (map_range_getElem? hkeys items)⟩
    | date => exact ⟨_, .date, (Option.some.inj h).symm⟩
    | _ => cases h
  · rintro ⟨value, htable, rfl⟩
    cases htable with
    | table | date => rfl
    | array | tables => exact congrArg some (map_range_getElem? hkeys _)

/-- The settings of a survey under the keys of the table `scan`. -/
structure DescribesScan (value : Text → Option Toml) (s : ScanSettings) : Prop where
  maxFileSize : Gives IsNumber (value "max_file_size") s.maxFileSize
  threads : Gives IsNumber (value "threads") s.threads
  batchConcurrency : Gives IsNumber (value "batch_concurrency") s.batchConcurrency
  extraSystemPrefixes : GivesTexts (value "extra_system_prefixes") s.extraSystemPrefixes
  unitExtensions : GivesTexts (value "unit_extensions") s.unitExtensions
  extractSql : Gives IsFlag (value "extract_sql") s.extractSql

/-- The settings of queries under the keys of the table `sql`. -/
structure DescribesSql (value : Text → Option Toml) (s : SqlSettings) : Prop where
  extraReservedWords : GivesTexts (value "extra_reserved_words") s.extraReservedWords
  quoteReserved : Gives IsFlag (value "quote_reserved") s.quoteReserved

theorem scanSettings?_iff_of_values? {v : Toml} {value : Text → Option Toml} {s : ScanSettings}
    (h : values? scanKeys v = some (scanKeys.map value)) :
    scanSettings? v = some s ↔ DescribesScan value s := by
  rw [scanSettings?, h]
  simp only [scanKeys, List.map_cons, List.map_nil, Option.bind_eq_bind, Option.bind_eq_some_iff,
    optional_eq_some_iff nat?_eq_some_iff, optional_eq_some_iff bool?_eq_some_iff,
    listOrNone_eq_some_iff, Option.some.injEq]
  constructor
  · rintro ⟨_, hsize, _, hthreads, _, hbatch, _, hsystem, _, hextensions, _, hextract, rfl⟩
    exact ⟨hsize, hthreads, hbatch, hsystem, hextensions, hextract⟩
  · rintro ⟨hsize, hthreads, hbatch, hsystem, hextensions, hextract⟩
    exact ⟨_, hsize, _, hthreads, _, hbatch, _, hsystem, _, hextensions, _, hextract, rfl⟩

theorem sqlSettings?_iff_of_values? {v : Toml} {value : Text → Option Toml} {s : SqlSettings}
    (h : values? sqlKeys v = some (sqlKeys.map value)) :
    sqlSettings? v = some s ↔ DescribesSql value s := by
  rw [sqlSettings?, h]
  simp only [sqlKeys, List.map_cons, List.map_nil, Option.bind_eq_bind, Option.bind_eq_some_iff,
    optional_eq_some_iff bool?_eq_some_iff, listOrNone_eq_some_iff, Option.some.injEq]
  constructor
  · rintro ⟨_, hwords, _, hquote, rfl⟩
    exact ⟨hwords, hquote⟩
  · rintro ⟨hwords, hquote⟩
    exact ⟨_, hwords, _, hquote, rfl⟩

/-- Where nothing is given every setting is open. -/
theorem describesScan_nothing {s : ScanSettings} :
    DescribesScan (fun _ => none) s ↔ s = default.scan := by
  constructor
  · rintro ⟨hsize, hthreads, hbatch, hsystem, hextensions, hextract⟩
    cases s
    cases hsize
    cases hthreads
    cases hbatch
    cases hsystem
    cases hextensions
    cases hextract
    rfl
  · rintro rfl
    exact ⟨.missing, .missing, .missing, .missing, .missing, .missing⟩

theorem describesSql_nothing {s : SqlSettings} :
    DescribesSql (fun _ => none) s ↔ s = default.sql := by
  constructor
  · rintro ⟨hwords, hquote⟩
    cases s
    cases hwords
    cases hquote
    rfl
  · rintro rfl
    exact ⟨.missing, .missing⟩

/-- Settings are read from a table that may be missing as their values describe them, if they are
read so from the values of the keys. -/
theorem getD_optional_eq_some_iff {α : Type} {keys : List Text} (hkeys : keys.Nodup)
    {read : Toml → Option α} {Describes : (Text → Option Toml) → α → Prop} {nothing s : α}
    (hnone : ∀ {v}, values? keys v = none → read v = none)
    (hread : ∀ {v value}, values? keys v = some (keys.map value) → (read v = some s ↔ Describes value s))
    (hnothing : Describes (fun _ => none) s ↔ s = nothing) {v? : Option Toml} :
    (∃ a?, optional read v? = some a? ∧ a?.getD nothing = s) ↔
      ∃ value, TableGives keys v? value ∧ Describes value s := by
  cases v? with
  | none =>
    constructor
    · rintro ⟨a?, hsome, rfl⟩
      obtain rfl := Option.some.inj hsome
      exact ⟨_, .missing, hnothing.mpr rfl⟩
    · rintro ⟨value, htable, hs⟩
      cases htable
      exact ⟨none, rfl, (hnothing.mp hs).symm⟩
  | some v =>
    constructor
    · rintro ⟨a?, hsome, rfl⟩
      obtain ⟨a, ha, rfl⟩ := Option.map_eq_some_iff.mp hsome
      cases hvalues : values? keys v with
      | none =>
        -- what cannot stand for a table is not read
        rw [hnone hvalues] at ha
        cases ha
      | some vs =>
        obtain ⟨value, htable, rfl⟩ := (values?_eq_some_iff hkeys).mp hvalues
        exact ⟨value, htable, (hread hvalues).mp ha⟩
    · rintro ⟨value, htable, hs⟩
      have hvalues := (values?_eq_some_iff hkeys).mpr ⟨value, htable, rfl⟩
      exact ⟨some s, congrArg (Option.map some) ((hread hvalues).mpr hs), rfl⟩

/-! ### Documents -/

/-- A document describes a configuration. -/
structure Describes (entries : Entries) (c : Config) : Prop where
  scan : ∃ value, TableGives scanKeys (List.lookup (Text.ofString "scan") entries) value ∧
    DescribesScan value c.scan
  sql : ∃ value, TableGives sqlKeys (List.lookup (Text.ofString "sql") entries) value ∧
    DescribesSql value c.sql

/-- **A configuration is read from a document exactly if the document describes it.** -/
theorem ofEntries?_eq_some_iff {entries : Entries} {c : Config} :
    ofEntries? entries = some c ↔ Describes entries c := by
  have hscan := @getD_optional_eq_some_iff _ scanKeys (by decide +kernel) scanSettings? DescribesScan
    default.scan c.scan (fun h => by rw [scanSettings?, h]) scanSettings?_iff_of_values?
    describesScan_nothing (List.lookup (Text.ofString "scan") entries)
  have hsql := @getD_optional_eq_some_iff _ sqlKeys (by decide +kernel) sqlSettings? DescribesSql
    default.sql c.sql (fun h => by rw [sqlSettings?, h]) sqlSettings?_iff_of_values?
    describesSql_nothing (List.lookup (Text.ofString "sql") entries)
  simp only [ofEntries?, Option.bind_eq_bind, Option.bind_eq_some_iff, Option.some.injEq]
  constructor
  · rintro ⟨scan, hscan?, sql, hsql?, rfl⟩
    exact ⟨hscan.mp ⟨scan, hscan?, rfl⟩, hsql.mp ⟨sql, hsql?, rfl⟩⟩
  · rintro ⟨hscan?, hsql?⟩
    obtain ⟨scan, hscan?, hs⟩ := hscan.mpr hscan?
    obtain ⟨sql, hsql?, hq⟩ := hsql.mpr hsql?
    exact ⟨scan, hscan?, sql, hsql?, by rw [hs, hq]⟩

end PascalSurvey.Config
