/-
PascalSurvey/Report/Codec.lean

The JSON form of reports.
-/
import PascalSurvey.ProjectFile.Codec
import PascalSurvey.Report.Basic
import PascalSurvey.Report.Facts

namespace PascalSurvey

open Json

/-! ### Warnings -/

def Warning.Kind.toJson (k : Warning.Kind) : Json := .str k.name

def Warning.Kind.ofJson? (j : Json) : Option Warning.Kind := do
  let n ← name? j
  Warning.Kind.all.find? fun k => k.name == n

def Warning.toJson (w : Warning) : Json :=
  .obj [("kind", w.kind.toJson), ("path", ofOption .str w.path), ("message", .str w.message)]

def Warning.ofJson? (j : Json) : Option Warning :=
  match fields? ["kind", "path", "message"] j with
  | some [a, b, c] => do
    some ⟨← required Warning.Kind.ofJson? a, ← optional text? b, ← required text? c⟩
  | _ => none

/-! ### Units -/

def SourceUnit.toJson (u : SourceUnit) : Json :=
  .obj [("name", .str u.name), ("file_path", ofOption .str u.file),
    ("relative_path", ofOption .str u.relativePath), ("size", .nat u.size),
    ("line_count", .nat u.lineCount), ("is_form", .bool u.isForm),
    ("is_data_module", .bool u.isDataModule), ("from_project_file", .bool u.fromProjectFile),
    ("in_entry_point", .bool u.inEntryPoint), ("form_file", ofOption .str u.formFile),
    ("interface_uses", ofList .str u.interfaceUses),
    ("implementation_uses", ofList .str u.implementationUses),
    ("classes", ofList Outline.TypeDecl.toJson u.types),
    ("methods", ofList Routine.Method.toJson u.methods),
    ("queries", ofList Sql.Query.toJson u.queries)]

def SourceUnit.ofJson? (j : Json) : Option SourceUnit :=
  match fields? ["name", "file_path", "relative_path", "size", "line_count", "is_form",
      "is_data_module", "from_project_file", "in_entry_point", "form_file", "interface_uses",
      "implementation_uses", "classes", "methods", "queries"] j with
  | some [a, b, c, d, e, f, g, h, i, k, l, m, n, o, p] => do
    some {
      name := ← required text? a
      file := ← optional text? b
      relativePath := ← optional text? c
      size := ← required (nat? countBound) d
      lineCount := ← required (nat? countBound) e
      isForm := ← required bool? f
      isDataModule := ← required bool? g
      fromProjectFile := ← required bool? h
      inEntryPoint := ← required bool? i
      formFile := ← optional text? k
      interfaceUses := ← required (list? text?) l
      implementationUses := ← required (list? text?) m
      types := ← required (list? Outline.TypeDecl.ofJson?) n
      methods := ← required (list? Routine.Method.ofJson?) o
      queries := ← required (list? Sql.Query.ofJson?) p }
  | _ => none

/-! ### Projects -/

def Framework.toJson (f : Framework) : Json := .str f.name

def Framework.ofJson? (j : Json) : Option Framework := do
  let n ← name? j
  Framework.all.find? fun f => f.name == n

def Project.toJson (p : Project) : Json :=
  .obj [("root", .str p.root), ("dpr_path", ofOption .str p.program),
    ("dproj_path", ofOption .str p.projectFile), ("name", .str p.name),
    ("framework", p.framework.toJson), ("search_paths", ofList .str p.searchPaths),
    ("defines", ofList .str p.defines), ("units", ofList SourceUnit.toJson p.units),
    ("forms", ofList Form.toJson p.forms), ("warnings", ofList .str p.warnings),
    ("metadata", ofOption ProjectFile.Metadata.toJson p.metadata)]

def Project.ofJson? (j : Json) : Option Project :=
  match fields? ["root", "dpr_path", "dproj_path", "name", "framework", "search_paths", "defines",
      "units", "forms", "warnings", "metadata"] j with
  | some [a, b, c, d, e, f, g, h, i, k, l] => do
    some {
      root := ← required text? a
      program := ← optional text? b
      projectFile := ← optional text? c
      name := ← required text? d
      framework := ← required Framework.ofJson? e
      searchPaths := ← required (list? text?) f
      defines := ← required (list? text?) g
      units := ← required (list? SourceUnit.ofJson?) h
      forms := ← required (list? Form.ofJson?) i
      warnings := ← required (list? text?) k
      metadata := ← optional ProjectFile.Metadata.ofJson? l }
  | _ => none

/-! ### Reports -/

def Stats.toJson (s : Stats) : Json :=
  .obj [("units_total", .nat s.unitsTotal), ("units_scanned", .nat s.unitsScanned),
    ("units_failed", .nat s.unitsFailed), ("units_skipped", .nat s.unitsSkipped),
    ("methods", .nat s.methods), ("queries", .nat s.queries),
    ("dynamic_queries", .nat s.dynamicQueries), ("forms", .nat s.forms),
    ("duration_ms", .nat s.durationMs)]

def Stats.ofJson? (j : Json) : Option Stats :=
  match fields? ["units_total", "units_scanned", "units_failed", "units_skipped", "methods",
      "queries", "dynamic_queries", "forms", "duration_ms"] j with
  | some [a, b, c, d, e, f, g, h, i] => do
    some {
      unitsTotal := ← required (nat? countBound) a
      unitsScanned := ← required (nat? countBound) b
      unitsFailed := ← required (nat? countBound) c
      unitsSkipped := ← required (nat? countBound) d
      methods := ← required (nat? countBound) e
      queries := ← required (nat? countBound) f
      dynamicQueries := ← required (nat? countBound) g
      forms := ← required (nat? countBound) h
      durationMs := ← required (nat? countBound) i }
  | _ => none

def Report.toJson (r : Report) : Json :=
  .obj [("project", r.project.toJson), ("warnings", ofList Warning.toJson r.warnings),
    ("stats", r.stats.toJson)]

def Report.ofJson? (j : Json) : Option Report :=
  match fields? ["project", "warnings", "stats"] j with
  | some [a, b, c] => do
    some {
      project := ← required Project.ofJson? a
      warnings := ← required (list? Warning.ofJson?) b
      stats := ← required Stats.ofJson? c }
  | _ => none

end PascalSurvey
