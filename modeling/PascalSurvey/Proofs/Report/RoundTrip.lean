/-
PascalSurvey/Proofs/Report/RoundTrip.lean

A report survives JSON.  It is well-formed if all its texts are and all its numbers are in
their bounds.  Well-formed reports, and no others, are read back from what is written of them.
What is read is well-formed, from whatever it was read: an object with unknown members, or one
without its optional fields, or an array of all fields.
-/
import PascalSurvey.Proofs.ProjectFile.Codec
import PascalSurvey.Proofs.Report.Facts
import PascalSurvey.Report.Codec

namespace PascalSurvey

open Json

/-! ### Warnings -/

theorem Warning.Kind.lawful : Lawful Warning.Kind.ofJson? Warning.Kind.toJson fun _ => True :=
  lawful_enumeration Warning.Kind.all Warning.Kind.name (by intro k; cases k <;> decide)
    (by decide +kernel)

structure Warning.WellFormed (w : Warning) : Prop where
  path : ∀ t ∈ w.path, Utf8.isValid t
  message : Utf8.isValid w.message

theorem Warning.lawful : Lawful Warning.ofJson? Warning.toJson Warning.WellFormed where
  read_write {w} h := by
    rw [ofJson?, toJson, fields?_obj (by rfl) (by decide +kernel)]
    simp only [List.map_cons, List.map_nil, Kind.lawful.required.read_write trivial,
      field_text?.read_write h.path, field_text.read_write h.message, Option.bind_eq_bind,
      Option.bind_some]
  admits {j w} h := by
    rw [ofJson?] at h
    split at h
    · obtain ⟨_, -, h⟩ := Kind.lawful.required.of_bind h
      obtain ⟨_, hpath, h⟩ := field_text?.of_bind h
      obtain ⟨_, hmessage, h⟩ := field_text.of_bind h
      obtain rfl := Option.some.inj h
      exact ⟨hpath, hmessage⟩
    · cases h
  write_ne_null _ := nofun

/-! ### Units -/

structure SourceUnit.WellFormed (u : SourceUnit) : Prop where
  name : Utf8.isValid u.name
  file : ∀ t ∈ u.file, Utf8.isValid t
  relativePath : ∀ t ∈ u.relativePath, Utf8.isValid t
  size : u.size < countBound
  lineCount : u.lineCount < countBound
  formFile : ∀ t ∈ u.formFile, Utf8.isValid t
  interfaceUses : ∀ t ∈ u.interfaceUses, Utf8.isValid t
  implementationUses : ∀ t ∈ u.implementationUses, Utf8.isValid t
  types : ∀ d ∈ u.types, d.WellFormed
  methods : ∀ m ∈ u.methods, m.WellFormed
  queries : ∀ q ∈ u.queries, q.WellFormed

theorem SourceUnit.lawful : Lawful SourceUnit.ofJson? SourceUnit.toJson SourceUnit.WellFormed where
  read_write {u} h := by
    rw [ofJson?, toJson, fields?_obj (by rfl) (by decide +kernel)]
    simp only [List.map_cons, List.map_nil, field_text.read_write h.name,
      field_text?.read_write h.file, field_text?.read_write h.relativePath,
      field_nat.read_write h.size, field_nat.read_write h.lineCount,
      field_bool.read_write trivial, field_text?.read_write h.formFile,
      field_texts.read_write h.interfaceUses, field_texts.read_write h.implementationUses,
      Outline.TypeDecl.lawful.list.required.read_write h.types,
      Routine.Method.lawful.list.required.read_write h.methods,
      Sql.Query.lawful.list.required.read_write h.queries, Option.bind_eq_bind,
      Option.bind_some]
  admits {j u} h := by
    rw [ofJson?] at h
    split at h
    · obtain ⟨_, hname, h⟩ := field_text.of_bind h
      obtain ⟨_, hfile, h⟩ := field_text?.of_bind h
      obtain ⟨_, hrelativePath, h⟩ := field_text?.of_bind h
      obtain ⟨_, hsize, h⟩ := field_nat.of_bind h
      obtain ⟨_, hlineCount, h⟩ := field_nat.of_bind h
      obtain ⟨_, -, h⟩ := field_bool.of_bind h
      obtain ⟨_, -, h⟩ := field_bool.of_bind h
      obtain ⟨_, -, h⟩ := field_bool.of_bind h
      obtain ⟨_, -, h⟩ := field_bool.of_bind h
      obtain ⟨_, hformFile, h⟩ := field_text?.of_bind h
      obtain ⟨_, hinterfaceUses, h⟩ := field_texts.of_bind h
      obtain ⟨_, himplementationUses, h⟩ := field_texts.of_bind h
      obtain ⟨_, htypes, h⟩ := Outline.TypeDecl.lawful.list.required.of_bind h
      obtain ⟨_, hmethods, h⟩ := Routine.Method.lawful.list.required.of_bind h
      obtain ⟨_, hqueries, h⟩ := Sql.Query.lawful.list.required.of_bind h
      obtain rfl := Option.some.inj h
      exact ⟨hname, hfile, hrelativePath, hsize, hlineCount, hformFile, hinterfaceUses,
        himplementationUses, htypes, hmethods, hqueries⟩
    · cases h
  write_ne_null _ := nofun

/-! ### Projects -/

theorem Framework.lawful : Lawful Framework.ofJson? Framework.toJson fun _ => True :=
  lawful_enumeration Framework.all Framework.name (by intro f; cases f <;> decide)
    (by decide +kernel)

structure Project.WellFormed (p : Project) : Prop where
  root : Utf8.isValid p.root
  program : ∀ t ∈ p.program, Utf8.isValid t
  projectFile : ∀ t ∈ p.projectFile, Utf8.isValid t
  name : Utf8.isValid p.name
  searchPaths : ∀ t ∈ p.searchPaths, Utf8.isValid t
  defines : ∀ t ∈ p.defines, Utf8.isValid t
  units : ∀ u ∈ p.units, u.WellFormed
  forms : ∀ f ∈ p.forms, f.WellFormed
  warnings : ∀ t ∈ p.warnings, Utf8.isValid t
  metadata : ∀ m ∈ p.metadata, m.WellFormed

theorem Project.lawful : Lawful Project.ofJson? Project.toJson Project.WellFormed where
  read_write {p} h := by
    rw [ofJson?, toJson, fields?_obj (by rfl) (by decide +kernel)]
    simp only [List.map_cons, List.map_nil, field_text.read_write h.root,
      field_text?.read_write h.program, field_text?.read_write h.projectFile,
      field_text.read_write h.name, Framework.lawful.required.read_write trivial,
      field_texts.read_write h.searchPaths, field_texts.read_write h.defines,
      SourceUnit.lawful.list.required.read_write h.units,
      Form.lawful.list.required.read_write h.forms, field_texts.read_write h.warnings,
      ProjectFile.Metadata.lawful.optional.read_write h.metadata, Option.bind_eq_bind,
      Option.bind_some]
  admits {j p} h := by
    rw [ofJson?] at h
    split at h
    · obtain ⟨_, hroot, h⟩ := field_text.of_bind h
      obtain ⟨_, hprogram, h⟩ := field_text?.of_bind h
      obtain ⟨_, hprojectFile, h⟩ := field_text?.of_bind h
      obtain ⟨_, hname, h⟩ := field_text.of_bind h
      obtain ⟨_, -, h⟩ := Framework.lawful.required.of_bind h
      obtain ⟨_, hsearchPaths, h⟩ := field_texts.of_bind h
      obtain ⟨_, hdefines, h⟩ := field_texts.of_bind h
      obtain ⟨_, hunits, h⟩ := SourceUnit.lawful.list.required.of_bind h
      obtain ⟨_, hforms, h⟩ := Form.lawful.list.required.of_bind h
      obtain ⟨_, hwarnings, h⟩ := field_texts.of_bind h
      obtain ⟨_, hmetadata, h⟩ := ProjectFile.Metadata.lawful.optional.of_bind h
      obtain rfl := Option.some.inj h
      exact ⟨hroot, hprogram, hprojectFile, hname, hsearchPaths, hdefines, hunits, hforms,
        hwarnings, hmetadata⟩
    · cases h
  write_ne_null _ := nofun

/-! ### Reports -/

structure Stats.WellFormed (s : Stats) : Prop where
  unitsTotal : s.unitsTotal < countBound
  unitsScanned : s.unitsScanned < countBound
  unitsFailed : s.unitsFailed < countBound
  unitsSkipped : s.unitsSkipped < countBound
  methods : s.methods < countBound
  queries : s.queries < countBound
  dynamicQueries : s.dynamicQueries < countBound
  forms : s.forms < countBound
  durationMs : s.durationMs < countBound

theorem Stats.lawful : Lawful Stats.ofJson? Stats.toJson Stats.WellFormed where
  read_write {s} h := by
    rw [ofJson?, toJson, fields?_obj (by rfl) (by decide +kernel)]
    simp only [List.map_cons, List.map_nil, field_nat.read_write h.unitsTotal,
      field_nat.read_write h.unitsScanned, field_nat.read_write h.unitsFailed,
      field_nat.read_write h.unitsSkipped, field_nat.read_write h.methods,
      field_nat.read_write h.queries, field_nat.read_write h.dynamicQueries,
      field_nat.read_write h.forms, field_nat.read_write h.durationMs, Option.bind_eq_bind,
      Option.bind_some]
  admits {j s} h := by
    rw [ofJson?] at h
    split at h
    · obtain ⟨_, hunitsTotal, h⟩ := field_nat.of_bind h
      obtain ⟨_, hunitsScanned, h⟩ := field_nat.of_bind h
      obtain ⟨_, hunitsFailed, h⟩ := field_nat.of_bind h
      obtain ⟨_, hunitsSkipped, h⟩ := field_nat.of_bind h
      obtain ⟨_, hmethods, h⟩ := field_nat.of_bind h
      obtain ⟨_, hqueries, h⟩ := field_nat.of_bind h
      obtain ⟨_, hdynamicQueries, h⟩ := field_nat.of_bind h
      obtain ⟨_, hforms, h⟩ := field_nat.of_bind h
      obtain ⟨_, hdurationMs, h⟩ := field_nat.of_bind h
      obtain rfl := Option.some.inj h
      exact ⟨hunitsTotal, hunitsScanned, hunitsFailed, hunitsSkipped, hmethods, hqueries,
        hdynamicQueries, hforms, hdurationMs⟩
    · cases h
  write_ne_null _ := nofun

structure Report.WellFormed (r : Report) : Prop where
  project : r.project.WellFormed
  warnings : ∀ w ∈ r.warnings, w.WellFormed
  stats : r.stats.WellFormed

theorem Report.lawful : Lawful Report.ofJson? Report.toJson Report.WellFormed where
  read_write {r} h := by
    rw [ofJson?, toJson, fields?_obj (by rfl) (by decide +kernel)]
    simp only [List.map_cons, List.map_nil, Project.lawful.required.read_write h.project,
      Warning.lawful.list.required.read_write h.warnings,
      Stats.lawful.required.read_write h.stats, Option.bind_eq_bind, Option.bind_some]
  admits {j r} h := by
    rw [ofJson?] at h
    split at h
    · obtain ⟨_, hproject, h⟩ := Project.lawful.required.of_bind h
      obtain ⟨_, hwarnings, h⟩ := Warning.lawful.list.required.of_bind h
      obtain ⟨_, hstats, h⟩ := Stats.lawful.required.of_bind h
      obtain rfl := Option.some.inj h
      exact ⟨hproject, hwarnings, hstats⟩
    · cases h
  write_ne_null _ := nofun

/-- Well-formed reports, and no others, are read back from what is written of them, and a report
that was read from any value is read back from what is written of it. -/
theorem Report.ofJson?_toJson (r : Report) :
    (Report.ofJson? r.toJson = some r ↔ r.WellFormed) ∧
      ∀ j, Report.ofJson? j = some r → Report.ofJson? r.toJson = some r :=
  ⟨Report.lawful.reread_iff, fun _ => Report.lawful.reread⟩

/-- A report as a person might write it: the counts in order and not by name, a kind of warning
as the key of an object, a member that no report has, and nothing where a field is optional. -/
def handWritten : Json :=
  .obj [("stats", .arr [.nat 1, .nat 0, .nat 1, .nat 0, .nat 0, .nat 0, .nat 0, .nat 0, .nat 12]),
    ("comment", .str "copied"),
    ("warnings", .arr [.obj [("message", .str "gone"),
      ("kind", .obj [("unreadable_file", .null)])]]),
    ("project", .obj [("root", .str "/p"), ("name", .str "App"), ("framework", .str "vcl"),
      ("search_paths", .arr [.str "lib"]), ("defines", .arr []),
      ("units", .arr [.obj [("name", .str "uMain"), ("file_path", .str "/p/uMain.pas"),
        ("size", .nat 40), ("line_count", .nat 0), ("is_form", .bool false),
        ("is_data_module", .bool false), ("from_project_file", .bool false),
        ("in_entry_point", .bool true), ("interface_uses", .arr []),
        ("implementation_uses", .arr []), ("classes", .arr []), ("methods", .arr []),
        ("queries", .arr [])]]),
      ("forms", .arr []), ("warnings", .arr [.str "[unreadable_file] gone"]),
      ("metadata", .null)])]

/-- What `handWritten` says. -/
def handRead : Report where
  project :=
    { Project.empty "/p" "App" with
      framework := .vcl
      searchPaths := ["lib"]
      units := [{ SourceUnit.withFile "uMain" "/p/uMain.pas" "/elsewhere" with
        size := 40, inEntryPoint := true }]
      warnings := ["[unreadable_file] gone"] }
  warnings := [.plain .unreadableFile "gone"]
  stats := ⟨1, 0, 1, 0, 0, 0, 0, 0, 12⟩

/-- What was written by hand is read, and then written and read again. -/
theorem Report.ofJson?_handWritten :
    Report.ofJson? handWritten = some handRead ∧ handRead.WellFormed ∧
      Report.ofJson? handRead.toJson = some handRead := by
  have hread : Report.ofJson? handWritten = some handRead := by decide +kernel
  obtain ⟨hiff, hreread⟩ := Report.ofJson?_toJson handRead
  have hback := hreread handWritten hread
  exact ⟨hread, hiff.mp hback, hback⟩

end PascalSurvey
