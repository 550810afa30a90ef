/-
PascalSurvey/ProjectFile/Codec.lean

The JSON form of what a project file says.
-/
import PascalSurvey.Json.Codec
import PascalSurvey.ProjectFile.Metadata

namespace PascalSurvey.ProjectFile

open Json

def Configuration.toJson (c : Configuration) : Json :=
  .obj [("name", .str c.name), ("key", .str c.key), ("defines", ofList .str c.defines),
    ("search_paths", ofList .str c.searchPaths), ("output_path", ofOption .str c.outputPath),
    ("debug", .bool c.debug)]

def Configuration.ofJson? (j : Json) : Option Configuration :=
  match fields? ["name", "key", "defines", "search_paths", "output_path", "debug"] j with
  | some [a, b, c, d, e, f] => do
    some {
      name := ← required text? a
      key := ← required text? b
      defines := ← required (list? text?) c
      searchPaths := ← required (list? text?) d
      outputPath := ← optional text? e
      debug := ← required bool? f }
  | _ => none

def SourceFile.toJson (s : SourceFile) : Json :=
  .obj [("path", .str s.path), ("unit_name", .str s.unitName), ("exists", ofOption .bool s.found),
    ("resolved_path", ofOption .str s.resolvedPath)]

def SourceFile.ofJson? (j : Json) : Option SourceFile :=
  match fields? ["path", "unit_name", "exists", "resolved_path"] j with
  | some [a, b, c, d] => do
    some {
      path := ← required text? a
      unitName := ← required text? b
      found := ← optional bool? c
      resolvedPath := ← optional text? d }
  | _ => none

def FormFile.toJson (f : FormFile) : Json :=
  .obj [("unit_name", .str f.unitName), ("form_name", .str f.formName), ("dfm_path", .str f.path),
    ("form_type", ofOption .str f.formType), ("exists", ofOption .bool f.found)]

def FormFile.ofJson? (j : Json) : Option FormFile :=
  match fields? ["unit_name", "form_name", "dfm_path", "form_type", "exists"] j with
  | some [a, b, c, d, e] => do
    some {
      unitName := ← required text? a
      formName := ← required text? b
      path := ← required text? c
      formType := ← optional text? d
      found := ← optional bool? e }
  | _ => none

def Metadata.toJson (m : Metadata) : Json :=
  .obj [("project_guid", ofOption .str m.projectGuid), ("main_source", ofOption .str m.mainSource),
    ("platform", ofOption .str m.platform), ("active_config", ofOption .str m.activeConfig),
    ("framework_type", ofOption .str m.frameworkType), ("exe_output", ofOption .str m.exeOutput),
    ("dcu_output", ofOption .str m.dcuOutput),
    ("configurations", ofList Configuration.toJson m.configurations),
    ("defines", ofList .str m.defines), ("search_paths", ofList .str m.searchPaths),
    ("source_files", ofList SourceFile.toJson m.sourceFiles),
    ("form_files", ofList FormFile.toJson m.formFiles),
    ("resource_files", ofList .str m.resourceFiles), ("packages", ofList .str m.packages)]

def Metadata.ofJson? (j : Json) : Option Metadata :=
  match fields? ["project_guid", "main_source", "platform", "active_config", "framework_type",
      "exe_output", "dcu_output", "configurations", "defines", "search_paths", "source_files",
      "form_files", "resource_files", "packages"] j with
  | some [a, b, c, d, e, f, g, h, i, k, l, m, n, o] => do
    some {
      projectGuid := ← optional text? a
      mainSource := ← optional text? b
      platform := ← optional text? c
      activeConfig := ← optional text? d
      frameworkType := ← optional text? e
      exeOutput := ← optional text? f
      dcuOutput := ← optional text? g
      configurations := ← required (list? Configuration.ofJson?) h
      defines := ← required (list? text?) i
      searchPaths := ← required (list? text?) k
      sourceFiles := ← required (list? SourceFile.ofJson?) l
      formFiles := ← required (list? FormFile.ofJson?) m
      resourceFiles := ← required (list? text?) n
      packages := ← required (list? text?) o }
  | _ => none

end PascalSurvey.ProjectFile
