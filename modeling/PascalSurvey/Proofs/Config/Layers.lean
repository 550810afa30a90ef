/-
PascalSurvey/Proofs/Config/Layers.lean

The layers of a configuration.  A setting that the caller and the environment may replace has
the value of the highest layer that gives one (`Settles`), and what the environment holds
gives a value only if it is written as one (`WritesNumber`, `WritesFlag`).  All other settings
come from the file, which gives what its document describes (`FileGives`).  It is read over the
defaults, in which nothing is given, so what it says comes through unchanged (`orElse_default`).

Only the outcome of all layers is validated.  A value in the file that makes no sense does no
harm if a higher layer replaces it, while one in a higher layer is refused whatever the file
says.

Main result: loading fails with the error of the file if that is there and cannot be used, and
else gives the layered configuration if it makes sense, and only then (`load_layers`).
-/
import Mathlib.Data.List.Basic
import PascalSurvey.Config.Load
import PascalSurvey.Proofs.Config.Document
import PascalSurvey.Proofs.FileTree.Places
import PascalSurvey.Proofs.Text.Decimal

namespace PascalSurvey

/-- A variable of the environment has a text as its value. -/
def Environment.Assigns (env : Environment) (name t : Text) : Prop :=
  List.lookup name env = some t ∧ Utf8.isValid t = true

theorem Environment.get?_eq_some_iff {env : Environment} {name t : Text} :
    env.get? name = some t ↔ env.Assigns name t :=
  Option.filter_eq_some_iff

namespace Config

open Ascii

/-! ### Values in the environment -/

/-- A text writes a number: decimal digits, perhaps behind a plus sign, that fit into 64
bits. -/
def WritesNumber (t : Text) (n : Nat) : Prop :=
  ∃ digits, (t = digits ∨ t = plus :: digits) ∧ Text.IsDecimal digits n ∧ n < Bound.word64

/-- A text writes a truth value. -/
inductive WritesFlag : Text → Bool → Prop
  | yes : WritesFlag "true" true
  | no : WritesFlag "false" false

/-- The digits of a number stand behind the plus sign, if there is one. -/
theorem numeral?_iff_digits {t : Text} {n : Nat} :
    numeral? t = some n ↔ ∃ digits, (Text.after? [plus] t).getD t = digits ∧
      Text.IsDecimal digits n ∧ n < Bound.word64 := by
  have hplus : Text.ofString "+" = [plus] := by decide +kernel
  unfold numeral?
  rw [hplus]
  simp only [Bool.and_eq_true, Bool.not_eq_true', List.isEmpty_eq_false_iff, List.all_eq_true,
    decide_eq_true_eq, Option.ite_none_right_eq_some, Option.some.injEq]
  constructor
  · rintro ⟨⟨⟨hne, hall⟩, hlt⟩, rfl⟩
    exact ⟨_, rfl, ⟨hne, hall, rfl⟩, hlt⟩
  · rintro ⟨-, rfl, ⟨hne, hall, rfl⟩, hlt⟩
    exact ⟨⟨⟨hne, hall⟩, hlt⟩, rfl⟩

/-- Without a plus sign at the head the text itself has to be the digits. -/
theorem after?_plus_of_digits {digits : Text} (h : ∀ d ∈ digits, isDigit d = true) :
    Text.after? [plus] digits = none ∨ digits = [] := by
  cases digits with
  | nil => exact .inr rfl
  | cons d rest =>
    have hd : plus ≠ d := by
      rintro rfl
      exact absurd (h plus List.mem_cons_self) (by decide)
    exact .inl (by rw [Text.after?, if_neg hd])

theorem numeral?_eq_some_iff {t : Text} {n : Nat} : numeral? t = some n ↔ WritesNumber t n := by
  rw [numeral?_iff_digits]
  constructor
  · rintro ⟨digits, rfl, hdigits⟩
    refine ⟨_, ?_, hdigits⟩
    cases t with
    | nil => exact .inl rfl
    | cons b rest =>
      rw [Text.after?]
      split
      · next hb => exact .inr (by rw [← hb]; rfl)
      · exact .inl rfl
  · rintro ⟨digits, ht, hdecimal, hlt⟩
    refine ⟨digits, ?_, hdecimal, hlt⟩
    rcases ht with rfl | rfl
    · rw [(after?_plus_of_digits hdecimal.isDigit).resolve_right hdecimal.ne_nil]
      rfl
    · rfl

theorem flag?_eq_some_iff {t : Text} {b : Bool} : flag? t = some b ↔ WritesFlag t b := by
  have hne : Text.ofString "false" ≠ Text.ofString "true" := by decide +kernel
  unfold flag?
  constructor
  · intro h
    split at h
    · next ht =>
      obtain rfl := Option.some.inj h
      exact ht ▸ .yes
    · split at h
      · next ht =>
        obtain rfl := Option.some.inj h
        exact ht ▸ .no
      · cases h
  · rintro (_ | _)
    · rw [if_pos rfl]
    · rw [if_neg hne, if_pos rfl]

/-! ### One setting -/

/-- The value of a setting in layers: what the caller demands, else what the variable of the
environment writes, else the value of the file. -/
inductive Settles {α : Type} (Writes : Text → α → Prop) (demanded : Option α)
    (Assigned : Text → Prop) (file : Option α) : Option α → Prop
  | demanded {v : α} : demanded = some v → Settles Writes demanded Assigned file (some v)
  | environment {t : Text} {v : α} : demanded = none → Assigned t → Writes t v →
      Settles Writes demanded Assigned file (some v)
  | file : demanded = none → (∀ t v, Assigned t → ¬Writes t v) →
      Settles Writes demanded Assigned file file

theorem settles_or {α : Type} {Writes : Text → α → Prop} {read : Text → Option α}
    (hread : ∀ {t v}, read t = some v ↔ Writes t v) (demanded : Option α) (env : Environment)
    (name : Text) (file : Option α) :
    Settles Writes demanded (env.Assigns name) file
      (demanded.or (((env.get? name).bind read).or file)) := by
  cases demanded with
  | some v => exact .demanded rfl
  | none =>
    rw [Option.none_or]
    cases hv : (env.get? name).bind read with
    | some v =>
      obtain ⟨t, ht, htv⟩ := Option.bind_eq_some_iff.mp hv
      exact .environment rfl (Environment.get?_eq_some_iff.mp ht) (hread.mp htv)
    | none =>
      refine .file rfl fun t v ht hw => ?_
      rw [Environment.get?_eq_some_iff.mpr ht, Option.bind_some, hread.mpr hw] at hv
      cases hv

/-- What the caller demands settles it. -/
theorem Settles.eq_of_demanded {α : Type} {Writes : Text → α → Prop} {Assigned : Text → Prop} {v : α}
    {file settled : Option α} (h : Settles Writes (some v) Assigned file settled) :
    settled = some v := by
  rcases h with h | ⟨h, -, -⟩ | ⟨h, -⟩
  · exact h.symm
  · cases h
  · cases h

/-! ### All settings -/

/-- Overrides that replace nothing. -/
def Overrides.nothing : Overrides := ⟨none, none, none, none⟩

/-- The configuration `c` is `file` under the environment and the demands of the caller. -/
structure FormedFrom (file : Config) (env : Environment) (o : Overrides) (c : Config) : Prop where
  maxFileSize : Settles WritesNumber o.maxFileSize (env.Assigns "QUARRY_SCAN_MAX_FILE_SIZE")
    file.scan.maxFileSize c.scan.maxFileSize
  threads : Settles WritesNumber o.threads (env.Assigns "QUARRY_SCAN_THREADS")
    file.scan.threads c.scan.threads
  batchConcurrency : Settles WritesNumber o.batchConcurrency
    (env.Assigns "QUARRY_BATCH_CONCURRENCY") file.scan.batchConcurrency c.scan.batchConcurrency
  quoteReserved : Settles WritesFlag o.quoteReserved (env.Assigns "QUARRY_SQL_QUOTE_RESERVED")
    file.sql.quoteReserved c.sql.quoteReserved
  extraSystemPrefixes : c.scan.extraSystemPrefixes = file.scan.extraSystemPrefixes
  unitExtensions : c.scan.unitExtensions = file.scan.unitExtensions
  extractSql : c.scan.extractSql = file.scan.extractSql
  extraReservedWords : c.sql.extraReservedWords = file.sql.extraReservedWords

/-- The layers over that of the file, the environment first. -/
def layered (file : Config) (env : Environment) (o : Overrides) : Config :=
  (file.override (.ofEnvironment env)).override o

theorem formedFrom_layered (file : Config) (env : Environment) (o : Overrides) :
    FormedFrom file env o (layered file env o) where
  maxFileSize := settles_or numeral?_eq_some_iff _ _ _ _
  threads := settles_or numeral?_eq_some_iff _ _ _ _
  batchConcurrency := settles_or numeral?_eq_some_iff _ _ _ _
  quoteReserved := settles_or flag?_eq_some_iff _ _ _ _
  extraSystemPrefixes := rfl
  unitExtensions := rfl
  extractSql := rfl
  extraReservedWords := rfl

/-! ### Validation -/

/-- A setting of a configuration makes no sense. -/
inductive MakesNoSense (c : Config) : (setting : Text) → Prop
  | size : c.scan.maxFileSize = some 0 → MakesNoSense c "scan.max_file_size"
  | concurrency : c.scan.batchConcurrency = some 0 → MakesNoSense c "scan.batch_concurrency"
  | extension {e : Text} : e ∈ c.scan.unitExtensions → (∀ b ∈ e, b = dot) →
      MakesNoSense c "scan.unit_extensions"

/-- Every setting makes sense. -/
def Sensible (c : Config) : Prop := ∀ setting, ¬MakesNoSense c setting

/-- The values in force can be worked with. -/
structure Workable (c : Config) : Prop where
  size : 0 < c.sizeLimit
  concurrency : 1 ≤ c.concurrency
  extensions : ∀ e ∈ c.extensions, e.head? = some dot ∧ ∃ b ∈ e, b ≠ dot

theorem isBlankExtension_iff {e : Text} : isBlankExtension e = true ↔ ∀ b ∈ e, b = dot := by
  simp [isBlankExtension]

/-- The fault of a configuration names a setting that makes no sense, and there is none only
if every setting does. -/
theorem fault?_spec (c : Config) :
    (∃ setting message, c.fault? = some (.invalid setting message) ∧ MakesNoSense c setting) ∨
      c.fault? = none ∧ c.Sensible := by
  unfold fault?
  split
  · next hsize => exact .inl ⟨_, _, rfl, .size hsize⟩
  · next hsize =>
    split
    · next hbatch => exact .inl ⟨_, _, rfl, .concurrency hbatch⟩
    · next hbatch =>
      cases hfind : c.scan.unitExtensions.find? isBlankExtension with
      | some e =>
        exact .inl ⟨_, _, rfl, .extension (List.mem_of_find?_eq_some hfind)
          (isBlankExtension_iff.mp (List.find?_some hfind))⟩
      | none =>
        refine .inr ⟨rfl, ?_⟩
        rintro setting (h | h | ⟨he, hdots⟩)
        · exact hsize h
        · exact hbatch h
        · exact List.find?_eq_none.mp hfind _ he (isBlankExtension_iff.mpr hdots)

/-- **Validation** gives back a configuration that makes sense, and refuses any other one. -/
theorem validate_spec (c : Config) :
    (c.Sensible ∧ c.validate = .ok c) ∨
      ∃ setting message, MakesNoSense c setting ∧ c.validate = .error (.invalid setting message) := by
  unfold validate
  rcases fault?_spec c with ⟨setting, message, hfault, hsetting⟩ | ⟨hfault, hsensible⟩
  · exact .inr ⟨setting, message, hsetting, by rw [hfault]⟩
  · exact .inl ⟨hsensible, by rw [hfault]⟩

theorem head?_dotted (e : Text) : (dotted e).head? = some dot := by
  unfold dotted
  split
  · assumption
  · rfl

theorem mem_dotted {e : Text} {b : UInt8} (h : b ∈ e) : b ∈ dotted e := by
  unfold dotted
  split
  · exact h
  · exact List.mem_cons_of_mem _ h

theorem Sensible.workable {c : Config} (h : c.Sensible) : c.Workable where
  size := by
    unfold sizeLimit
    rcases hsize : c.scan.maxFileSize with - | n
    · decide
    · exact Nat.pos_of_ne_zero fun hn => h _ (.size (hsize.trans (congrArg some hn)))
  concurrency := Nat.le_max_right _ _
  extensions := by
    intro e he
    unfold extensions at he
    split at he
    · revert e
      decide +kernel
    · obtain ⟨raw, hraw, rfl⟩ := List.mem_map.mp he
      refine ⟨head?_dotted raw, ?_⟩
      by_contra hdots
      refine h _ (.extension hraw fun b hb => ?_)
      by_contra hb'
      exact hdots ⟨b, mem_dotted hb, hb'⟩

/-! ### The file -/

/-- The directory whose configuration file counts for a root: the root, or what a root that is
a file lies in. -/
inductive IsDirectoryOf (tree : FileTree) (root : Path) : Path → Prop
  | directory : tree.isFile root = false → IsDirectoryOf tree root root
  | file {dir : Path} : tree.isFile root = true → Path.parent? root = some dir →
      IsDirectoryOf tree root dir

/-- The document of a file describes a configuration. -/
def Configures (bytes : List UInt8) (c : Config) : Prop :=
  ∃ entries, Toml.parse? bytes = some entries ∧ Describes entries c

theorem parse?_eq_some_iff {bytes : List UInt8} {c : Config} :
    parse? bytes = some c ↔ Configures bytes c := by
  simp only [parse?, Option.bind_eq_bind, Option.bind_eq_some_iff, ofEntries?_eq_some_iff, Configures]

/-- What the configuration file at a path comes to.  One that is missing gives what an empty
document describes. -/
inductive FileGives (tree : FileTree) (path : Path) : Except Error Config → Prop
  | missing {c : Config} : tree.exists? path = false → Describes [] c → FileGives tree path (.ok c)
  | unreadable : tree.exists? path = true →
      (∀ bytes, tree.read path = .ok bytes → Utf8.isValid bytes = false) →
      FileGives tree path (.error (.fileNotFound path.display))
  | malformed {bytes : List UInt8} : tree.read path = .ok bytes → Utf8.isValid bytes = true →
      (∀ c, ¬Configures bytes c) →
      FileGives tree path (.error (.malformed path.display "not a configuration"))
  | parsed {bytes : List UInt8} {c : Config} : tree.read path = .ok bytes →
      Utf8.isValid bytes = true → Configures bytes c → FileGives tree path (.ok c)

theorem exists_isDirectoryOf (tree : FileTree) (root : Path) :
    ∃ dir, IsDirectoryOf tree root dir ∧ filePath tree root = Path.join dir "quarry.toml" := by
  unfold filePath
  cases hfile : tree.isFile root with
  | false => exact ⟨root, .directory hfile, rfl⟩
  | true =>
    obtain ⟨dir, hdir⟩ := FileTree.exists_parent?_of_isFile hfile
    exact ⟨dir, .file hfile hdir, by rw [hdir]; rfl⟩

/-- In the defaults nothing is given, so a file over them is the file. -/
theorem orElse_default (c : Config) : c.orElse default = c := by
  have hor (l : List Text) : (if l.isEmpty then [] else l) = l := by
    cases l <;> rfl
  simp only [orElse, default, hor, Option.or_none]

/-- An empty document describes the defaults. -/
theorem describes_nil {c : Config} : Describes [] c ↔ c = default := by
  rw [← ofEntries?_eq_some_iff]
  exact ⟨fun h => (Option.some.inj h).symm, fun h => congrArg some h.symm⟩

/-- Every configuration file comes to something. -/
theorem exists_fileGives (tree : FileTree) (path : Path) : ∃ result, FileGives tree path result := by
  cases hthere : tree.exists? path with
  | false => exact ⟨_, .missing hthere (describes_nil.mpr rfl)⟩
  | true =>
    cases hread : tree.read path with
    | error e => exact ⟨_, .unreadable hthere (by simp [hread])⟩
    | ok bytes =>
      cases hvalid : Utf8.isValid bytes with
      | false =>
        refine ⟨_, .unreadable hthere fun bytes' hbytes' => ?_⟩
        rwa [← Except.ok.inj (hread.symm.trans hbytes')]
      | true =>
        by_cases hsays : ∃ c, Configures bytes c
        · obtain ⟨c, hc⟩ := hsays
          exact ⟨_, .parsed hread hvalid hc⟩
        · exact ⟨_, .malformed hread hvalid (not_exists.mp hsays)⟩

/-- What the file comes to is the layer of the file. -/
theorem FileGives.fileLayer_eq {tree : FileTree} {root : Path} {result : Except Error Config}
    (h : FileGives tree (filePath tree root) result) : fileLayer tree root = result := by
  unfold fileLayer
  dsimp only
  generalize filePath tree root = path at h ⊢
  rcases h with ⟨hmissing, hnothing⟩ | ⟨hthere, hbytes⟩ | ⟨hread, hvalid, hsays⟩ | ⟨hread, hvalid, hsays⟩
  · rw [if_neg (by simp [hmissing]), describes_nil.mp hnothing]
  · rw [if_pos hthere, readFile]
    cases hread : tree.read path with
    | error e => rfl
    | ok bytes => simp [hbytes bytes hread, Except.map]
  · have hparse : parse? _ = none :=
      Option.eq_none_iff_forall_ne_some.mpr fun c hc => hsays c (parse?_eq_some_iff.mp hc)
    rw [if_pos (FileTree.exists?_of_read hread), readFile, hread]
    simp [hvalid, hparse, Except.map, malformedIn]
  · rw [if_pos (FileTree.exists?_of_read hread), readFile, hread]
    simp [hvalid, parse?_eq_some_iff.mpr hsays, Except.map, orElse_default]

/-! ### Loading -/

theorem load_of_error {tree : FileTree} {root : Path} {e : Error} (env : Environment)
    (overrides : Option Overrides) (h : fileLayer tree root = .error e) :
    load tree env root overrides = .error e := by
  unfold load
  rw [h]
  rfl

theorem load_of_ok {tree : FileTree} {root : Path} {file : Config} (env : Environment)
    (overrides : Option Overrides) (h : fileLayer tree root = .ok file) :
    load tree env root overrides = (layered file env (overrides.getD .nothing)).validate := by
  unfold load
  rw [h]
  cases overrides <;> rfl

/-- **Main.**  The configuration file `quarry.toml` lies in the directory of the root.  It cannot be
read, or its document describes no configuration, or it gives the one that its document describes,
that without settings if it is missing.
* Loading fails if the file does, with the error of the file.
* Else one configuration is formed from the file, the environment and the demands of the
  caller.  It is loaded exactly if it makes sense, and its values in force can then be worked
  with; if it makes none, the error names a setting that makes none. -/
theorem load_layers (tree : FileTree) (env : Environment) (root : Path)
    (overrides : Option Overrides) :
    ∃ dir, IsDirectoryOf tree root dir ∧
      (∃ result, FileGives tree (Path.join dir "quarry.toml") result) ∧
      (∀ e, FileGives tree (Path.join dir "quarry.toml") (.error e) →
        load tree env root overrides = .error e) ∧
      ∀ file, FileGives tree (Path.join dir "quarry.toml") (.ok file) →
        ∃ c, FormedFrom file env (overrides.getD .nothing) c ∧
          (∀ c', load tree env root overrides = .ok c' ↔ c.Sensible ∧ c' = c) ∧
          (c.Sensible → c.Workable) ∧
          (¬c.Sensible → ∃ setting message, MakesNoSense c setting ∧
            load tree env root overrides = .error (.invalid setting message)) := by
  obtain ⟨dir, hdir, hpath⟩ := exists_isDirectoryOf tree root
  refine ⟨dir, hdir, ?_⟩
  rw [← hpath]
  refine ⟨exists_fileGives _ _, ?_, ?_⟩
  · intro e hfile
    exact load_of_error env overrides hfile.fileLayer_eq
  · intro file hfile
    have hload := load_of_ok env overrides hfile.fileLayer_eq
    refine ⟨_, formedFrom_layered file env (overrides.getD .nothing), ?_, Sensible.workable, ?_⟩
    · intro c'
      rcases validate_spec (layered file env (overrides.getD .nothing)) with
        ⟨hsensible, hvalid⟩ | ⟨setting, message, hsetting, hinvalid⟩
      · rw [hload, hvalid]
        exact ⟨fun h => ⟨hsensible, (Except.ok.inj h).symm⟩, fun h => congrArg _ h.2.symm⟩
      · rw [hload, hinvalid]
        exact ⟨nofun, fun h => absurd hsetting (h.1 setting)⟩
    · intro hnot
      rcases validate_spec (layered file env (overrides.getD .nothing)) with
        ⟨hsensible, -⟩ | ⟨setting, message, hsetting, hinvalid⟩
      · exact absurd hsensible hnot
      · exact ⟨setting, message, hsetting, hload.trans hinvalid⟩

/-- A file in which the size makes no sense. -/
def layeredFile : Text :=
  "[scan]\nmax_file_size = 0\nthreads = 3\nunit_extensions = ['pas']\n[sql]\nquote_reserved = true\n"

/-- The file lies beside the root, which is a file itself. -/
def layeredTree : FileTree :=
  (FileTree.empty.addFile "/work/App.dpr" (Text.ofString "program App; begin end.")).addFile
    "/work/quarry.toml" layeredFile

/-- The environment mends the size, but its number of threads cannot be read. -/
def layeredEnvironment : Environment :=
  [("QUARRY_SCAN_MAX_FILE_SIZE", "12"), ("QUARRY_SCAN_THREADS", "many"),
    ("QUARRY_SQL_QUOTE_RESERVED", "true")]

/-- A batch size, and another flag than that of the file and the environment. -/
def layeredOverrides : Overrides := ⟨none, none, some 2, some false⟩

theorem load_threeLayers :
    ∃ file c, FileGives layeredTree "/work/quarry.toml" (.ok file) ∧ ¬file.Sensible ∧
      FormedFrom file layeredEnvironment layeredOverrides c ∧
      c = ⟨⟨some 12, some 3, some 2, [], [Text.ofString "pas"], none⟩, ⟨[], some false⟩⟩ ∧
      load layeredTree layeredEnvironment "/work/App.dpr" (some layeredOverrides) = .ok c ∧
      ∀ c', load layeredTree layeredEnvironment "/work/App.dpr"
        (some { layeredOverrides with maxFileSize := some 0 }) ≠ .ok c' := by
  let file : Config :=
    ⟨⟨some 0, some 3, none, [], [Text.ofString "pas"], none⟩, ⟨[], some true⟩⟩
  have hread : layeredTree.read "/work/quarry.toml" = .ok layeredFile := by decide +kernel
  have hfile : FileGives layeredTree "/work/quarry.toml" (.ok file) :=
    .parsed hread (by decide +kernel) (parse?_eq_some_iff.mp (by decide +kernel))
  -- the root is a file, so the directory is its parent
  have hroot : layeredTree.isFile "/work/App.dpr" = true := by decide +kernel
  have hparent : Path.parent? "/work/App.dpr" = some (Text.ofString "/work") := by decide +kernel
  have hdirectory {dir : Path} (h : IsDirectoryOf layeredTree "/work/App.dpr" dir) :
      Path.join dir "quarry.toml" = "/work/quarry.toml" := by
    rcases h with h | ⟨-, h⟩
    · rw [hroot] at h
      cases h
    · obtain rfl := Option.some.inj (h.symm.trans hparent)
      decide +kernel
  obtain ⟨dir, hdir, -, -, hload⟩ :=
    load_layers layeredTree layeredEnvironment "/work/App.dpr" (some layeredOverrides)
  rw [hdirectory hdir] at hload
  obtain ⟨c, hformed, hexact, -⟩ := hload file hfile
  obtain ⟨dir', hdir', -, -, hload'⟩ := load_layers layeredTree layeredEnvironment "/work/App.dpr"
    (some { layeredOverrides with maxFileSize := some 0 })
  rw [hdirectory hdir'] at hload'
  obtain ⟨c', hformed', hexact', -⟩ := hload' file hfile
  have hloaded : load layeredTree layeredEnvironment "/work/App.dpr" (some layeredOverrides) =
      .ok ⟨⟨some 12, some 3, some 2, [], [Text.ofString "pas"], none⟩, ⟨[], some false⟩⟩ := by
    decide +kernel
  obtain ⟨-, hc⟩ := (hexact _).mp hloaded
  refine ⟨file, c, hfile, fun h => h _ (.size rfl), hformed, hc.symm, hc ▸ hloaded, ?_⟩
  intro c₁ hc₁
  -- the size is that of the overrides now, which makes no sense
  have hsize : c'.scan.maxFileSize = some 0 := hformed'.maxFileSize.eq_of_demanded
  exact ((hexact' c₁).mp hc₁).1 _ (.size hsize)

end Config
end PascalSurvey
