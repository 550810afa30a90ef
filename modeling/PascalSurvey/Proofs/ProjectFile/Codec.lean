/-
PascalSurvey/Proofs/ProjectFile/Codec.lean

What a project file says survives JSON, if its texts are well-formed.
-/
import PascalSurvey.Proofs.Json.Codec
import PascalSurvey.ProjectFile.Codec

namespace PascalSurvey.ProjectFile

open Json

structure Configuration.WellFormed (c : Configuration) : Prop where
  name : Utf8.isValid c.name
  key : Utf8.isValid c.key
  defines : ∀ t ∈ c.defines, Utf8.isValid t
  searchPaths : ∀ t ∈ c.searchPaths, Utf8.isValid t
  outputPath : ∀ t ∈ c.outputPath, Utf8.isValid t

theorem Configuration.lawful :
    Lawful Configuration.ofJson? Configuration.toJson Configuration.WellFormed where
  read_write {c} h := by
    rw [ofJson?, toJson, fields?_obj (by rfl) (by decide +kernel)]
    simp only [List.map_cons, List.map_nil, field_text.read_write h.name,
      field_text.read_write h.key, field_texts.read_write h.defines,
      field_texts.read_write h.searchPaths, field_text?.read_write h.outputPath,
      field_bool.read_write trivial, Option.bind_eq_bind, Option.bind_some]
  admits {j c} h := by
    rw [ofJson?] at h
    split at h
    · obtain ⟨_, hname, h⟩ := field_text.of_bind h
      obtain ⟨_, hkey, h⟩ := field_text.of_bind h
      obtain ⟨_, hdefines, h⟩ := field_texts.of_bind h
      obtain ⟨_, hsearchPaths, h⟩ := field_texts.of_bind h
      obtain ⟨_, houtputPath, h⟩ := field_text?.of_bind h
      obtain ⟨_, -, h⟩ := field_bool.of_bind h
      obtain rfl := Option.some.inj h
      exact ⟨hname, hkey, hdefines, hsearchPaths, houtputPath⟩
    · cases h
  write_ne_null _ := nofun

structure SourceFile.WellFormed (s : SourceFile) : Prop where
  path : Utf8.isValid s.path
  unitName : Utf8.isValid s.unitName
  resolvedPath : ∀ t ∈ s.resolvedPath, Utf8.isValid t

theorem SourceFile.lawful : Lawful SourceFile.ofJson? SourceFile.toJson SourceFile.WellFormed where
  read_write {s} h := by
    rw [ofJson?, toJson, fields?_obj (by rfl) (by decide +kernel)]
    simp only [List.map_cons, List.map_nil, field_text.read_write h.path,
      field_text.read_write h.unitName, field_bool?.read_write fun _ _ => trivial,
      field_text?.read_write h.resolvedPath, Option.bind_eq_bind, Option.bind_some]
  admits {j s} h := by
    rw [ofJson?] at h
    split at h
    · obtain ⟨_, hpath, h⟩ := field_text.of_bind h
      obtain ⟨_, hunitName, h⟩ := field_text.of_bind h
      obtain ⟨_, -, h⟩ := field_bool?.of_bind h
      obtain ⟨_, hresolvedPath, h⟩ := field_text?.of_bind h
      obtain rfl := Option.some.inj h
      exact ⟨hpath, hunitName, hresolvedPath⟩
    · cases h
  write_ne_null _ := nofun

structure FormFile.WellFormed (f : FormFile) : Prop where
  unitName : Utf8.isValid f.unitName
  formName : Utf8.isValid f.formName
  path : Utf8.isValid f.path
  formType : ∀ t ∈ f.formType, Utf8.isValid t

theorem FormFile.lawful : Lawful FormFile.ofJson? FormFile.toJson FormFile.WellFormed where
  read_write {f} h := by
    rw [ofJson?, toJson, fields?_obj (by rfl) (by decide +kernel)]
    simp only [List.map_cons, List.map_nil, field_text.read_write h.unitName,
      field_text.read_write h.formName, field_text.read_write h.path,
      field_text?.read_write h.formType, field_bool?.read_write fun _ _ => trivial,
      Option.bind_eq_bind, Option.bind_some]
  admits {j f} h := by
    rw [ofJson?] at h
    split at h
    · obtain ⟨_, hunitName, h⟩ := field_text.of_bind h
      obtain ⟨_, hformName, h⟩ := field_text.of_bind h
      obtain ⟨_, hpath, h⟩ := field_text.of_bind h
      obtain ⟨_, hformType, h⟩ := field_text?.of_bind h
      obtain ⟨_, -, h⟩ := field_bool?.of_bind h
      obtain rfl := Option.some.inj h
      exact ⟨hunitName, hformName, hpath, hformType⟩
    · cases h
  write_ne_null _ := nofun

structure Metadata.WellFormed (m : Metadata) : Prop where
  projectGuid : ∀ t ∈ m.projectGuid, Utf8.isValid t
  mainSource : ∀ t ∈ m.mainSource, Utf8.isValid t
  platform : ∀ t ∈ m.platform, Utf8.isValid t
  activeConfig : ∀ t ∈ m.activeConfig, Utf8.isValid t
  frameworkType : ∀ t ∈ m.frameworkType, Utf8.isValid t
  exeOutput : ∀ t ∈ m.exeOutput, Utf8.isValid t
  dcuOutput : ∀ t ∈ m.dcuOutput, Utf8.isValid t
  configurations : ∀ c ∈ m.configurations, c.WellFormed
  defines : ∀ t ∈ m.defines, Utf8.isValid t
  searchPaths : ∀ t ∈ m.searchPaths, Utf8.isValid t
  sourceFiles : ∀ s ∈ m.sourceFiles, s.WellFormed
  formFiles : ∀ f ∈ m.formFiles, f.WellFormed
  resourceFiles : ∀ t ∈ m.resourceFiles, Utf8.isValid t
  packages : ∀ t ∈ m.packages, Utf8.isValid t

theorem Metadata.lawful : Lawful Metadata.ofJson? Metadata.toJson Metadata.WellFormed where
  read_write {m} h := by
    rw [ofJson?, toJson, fields?_obj (by rfl) (by decide +kernel)]
    simp only [List.map_cons, List.map_nil, field_text?.read_write h.projectGuid,
      field_text?.read_write h.mainSource, field_text?.read_write h.platform,
      field_text?.read_write h.activeConfig, field_text?.read_write h.frameworkType,
      field_text?.read_write h.exeOutput, field_text?.read_write h.dcuOutput,
      Configuration.lawful.list.required.read_write h.configurations,
      field_texts.read_write h.defines, field_texts.read_write h.searchPaths,
      SourceFile.lawful.list.required.read_write h.sourceFiles,
      FormFile.lawful.list.required.read_write h.formFiles,
      field_texts.read_write h.resourceFiles, field_texts.read_write h.packages,
      Option.bind_eq_bind, Option.bind_some]
  admits {j m} h := by
    rw [ofJson?] at h
    split at h
    · obtain ⟨_, hprojectGuid, h⟩ := field_text?.of_bind h
      obtain ⟨_, hmainSource, h⟩ := field_text?.of_bind h
      obtain ⟨_, hplatform, h⟩ := field_text?.of_bind h
      obtain ⟨_, hactiveConfig, h⟩ := field_text?.of_bind h
      obtain ⟨_, hframeworkType, h⟩ := field_text?.of_bind h
      obtain ⟨_, hexeOutput, h⟩ := field_text?.of_bind h
      obtain ⟨_, hdcuOutput, h⟩ := field_text?.of_bind h
      obtain ⟨_, hconfigurations, h⟩ := Configuration.lawful.list.required.of_bind h
      obtain ⟨_, hdefines, h⟩ := field_texts.of_bind h
      obtain ⟨_, hsearchPaths, h⟩ := field_texts.of_bind h
      obtain ⟨_, hsourceFiles, h⟩ := SourceFile.lawful.list.required.of_bind h
      obtain ⟨_, hformFiles, h⟩ := FormFile.lawful.list.required.of_bind h
      obtain ⟨_, hresourceFiles, h⟩ := field_texts.of_bind h
      obtain ⟨_, hpackages, h⟩ := field_texts.of_bind h
      obtain rfl := Option.some.inj h
      exact ⟨hprojectGuid, hmainSource, hplatform, hactiveConfig, hframeworkType, hexeOutput,
        hdcuOutput, hconfigurations, hdefines, hsearchPaths, hsourceFiles, hformFiles,
        hresourceFiles, hpackages⟩
    · cases h
  write_ne_null _ := nofun

end PascalSurvey.ProjectFile
