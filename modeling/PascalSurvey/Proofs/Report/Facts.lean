/-
PascalSurvey/Proofs/Report/Facts.lean

What a unit holds survives JSON: routines, queries, types and forms.  A record is well-formed
if its texts are and its numbers are in their bounds, and so for all that it holds.  The
readers are lawful for these (`lawful`, one for each kind of record).

Each proof has the same two parts.  What is written is an object of all fields in the order in
which they are read, so the lemmas of the fields read it.  What is read has passed the lemmas
of its fields one after the other.
-/
import PascalSurvey.Proofs.Json.Codec
import PascalSurvey.Report.Facts

namespace PascalSurvey

open Json

namespace Routine

/-! ### Routines -/

theorem Kind.lawful : Lawful Kind.ofJson? Kind.toJson fun _ => True :=
  lawful_enumeration Kind.all Kind.keyword (by intro k; cases k <;> decide) (by decide)

theorem Modifier.lawful : Lawful Modifier.ofJson? Modifier.toJson fun _ => True :=
  lawful_enumeration [Modifier.none, .var, .const, .out] Modifier.name
    (by intro m; cases m <;> decide) (by decide)

structure Parameter.WellFormed (p : Parameter) : Prop where
  name : Utf8.isValid p.name
  typeText : Utf8.isValid p.typeText

theorem Parameter.lawful : Lawful Parameter.ofJson? Parameter.toJson Parameter.WellFormed where
  read_write {p} h := by
    -- the names that are written are those that are asked for, and no two are the same
    rw [ofJson?, toJson, fields?_obj (by rfl) (by decide +kernel)]
    simp only [List.map_cons, List.map_nil, field_text.read_write h.name,
      field_text.read_write h.typeText, Modifier.lawful.required.read_write trivial,
      Option.bind_eq_bind, Option.bind_some]
  admits {j p} h := by
    rw [ofJson?] at h
    split at h
    · obtain ⟨_, hname, h⟩ := field_text.of_bind h
      obtain ⟨_, htypeText, h⟩ := field_text.of_bind h
      obtain ⟨_, -, h⟩ := Modifier.lawful.required.of_bind h
      obtain rfl := Option.some.inj h
      exact ⟨hname, htypeText⟩
    · cases h
  write_ne_null _ := nofun

structure Method.WellFormed (m : Method) : Prop where
  className : ∀ t ∈ m.className, Utf8.isValid t
  name : Utf8.isValid m.name
  returnType : ∀ t ∈ m.returnType, Utf8.isValid t
  parameters : ∀ p ∈ m.parameters, p.WellFormed
  source : Utf8.isValid m.source
  startLine : m.startLine < lineBound
  endLine : m.endLine < lineBound

theorem Method.lawful : Lawful Method.ofJson? Method.toJson Method.WellFormed where
  read_write {m} h := by
    rw [ofJson?, toJson, fields?_obj (by rfl) (by decide +kernel)]
    simp only [List.map_cons, List.map_nil, Kind.lawful.required.read_write trivial,
      field_text?.read_write h.className, field_text.read_write h.name,
      field_bool.read_write trivial, field_text?.read_write h.returnType,
      Parameter.lawful.list.required.read_write h.parameters, field_text.read_write h.source,
      field_nat.read_write h.startLine, field_nat.read_write h.endLine, Option.bind_eq_bind,
      Option.bind_some]
  admits {j m} h := by
    rw [ofJson?] at h
    split at h
    · obtain ⟨_, -, h⟩ := Kind.lawful.required.of_bind h
      obtain ⟨_, hclassName, h⟩ := field_text?.of_bind h
      obtain ⟨_, hname, h⟩ := field_text.of_bind h
      obtain ⟨_, -, h⟩ := field_bool.of_bind h
      obtain ⟨_, hreturnType, h⟩ := field_text?.of_bind h
      obtain ⟨_, hparameters, h⟩ := Parameter.lawful.list.required.of_bind h
      obtain ⟨_, hsource, h⟩ := field_text.of_bind h
      obtain ⟨_, hstartLine, h⟩ := field_nat.of_bind h
      obtain ⟨_, hendLine, h⟩ := field_nat.of_bind h
      obtain ⟨_, -, h⟩ := field_bool.of_bind h
      obtain rfl := Option.some.inj h
      exact ⟨hclassName, hname, hreturnType, hparameters, hsource, hstartLine, hendLine⟩
    · cases h
  write_ne_null _ := nofun

end Routine

/-! ### Queries -/

namespace Sql

theorem Origin.lawful : Lawful Origin.ofJson? Origin.toJson fun _ => True :=
  lawful_enumeration [Origin.addSequence, .textAssignment] Origin.name
    (by intro o; cases o <;> decide) (by decide +kernel)

structure Query.WellFormed (q : Query) : Prop where
  sql : Utf8.isValid q.sql
  line : q.line < lineBound
  method : Utf8.isValid q.method
  className : ∀ t ∈ q.className, Utf8.isValid t
  parameters : ∀ t ∈ q.parameters, Utf8.isValid t
  component : Utf8.isValid q.component

theorem Query.lawful : Lawful Query.ofJson? Query.toJson Query.WellFormed where
  read_write {q} h := by
    rw [ofJson?, toJson, fields?_obj (by rfl) (by decide +kernel)]
    simp only [List.map_cons, List.map_nil, field_text.read_write h.sql,
      field_bool.read_write trivial, field_nat.read_write h.line, field_text.read_write h.method,
      field_text?.read_write h.className, Origin.lawful.required.read_write trivial,
      field_texts.read_write h.parameters, field_text.read_write h.component,
      Option.bind_eq_bind, Option.bind_some]
  admits {j q} h := by
    rw [ofJson?] at h
    split at h
    · obtain ⟨_, hsql, h⟩ := field_text.of_bind h
      obtain ⟨_, -, h⟩ := field_bool.of_bind h
      obtain ⟨_, hline, h⟩ := field_nat.of_bind h
      obtain ⟨_, hmethod, h⟩ := field_text.of_bind h
      obtain ⟨_, hclassName, h⟩ := field_text?.of_bind h
      obtain ⟨_, -, h⟩ := Origin.lawful.required.of_bind h
      obtain ⟨_, hparameters, h⟩ := field_texts.of_bind h
      obtain ⟨_, hcomponent, h⟩ := field_text.of_bind h
      obtain rfl := Option.some.inj h
      exact ⟨hsql, hline, hmethod, hclassName, hparameters, hcomponent⟩
    · cases h
  write_ne_null _ := nofun

end Sql

/-! ### Types and forms -/

namespace Outline

theorem TypeKind.lawful : Lawful TypeKind.ofJson? TypeKind.toJson fun _ => True :=
  lawful_enumeration [TypeKind.class_, .record, .interface] TypeKind.name
    (by intro k; cases k <;> decide) (by decide +kernel)

structure TypeDecl.WellFormed (d : TypeDecl) : Prop where
  name : Utf8.isValid d.name
  parent : ∀ t ∈ d.parent, Utf8.isValid t
  line : d.line < lineBound

theorem TypeDecl.lawful : Lawful TypeDecl.ofJson? TypeDecl.toJson TypeDecl.WellFormed where
  read_write {d} h := by
    rw [ofJson?, toJson, fields?_obj (by rfl) (by decide +kernel)]
    simp only [List.map_cons, List.map_nil, field_text.read_write h.name,
      TypeKind.lawful.required.read_write trivial, field_text?.read_write h.parent,
      field_nat.read_write h.line, Option.bind_eq_bind, Option.bind_some]
  admits {j d} h := by
    rw [ofJson?] at h
    split at h
    · obtain ⟨_, hname, h⟩ := field_text.of_bind h
      obtain ⟨_, -, h⟩ := TypeKind.lawful.required.of_bind h
      obtain ⟨_, hparent, h⟩ := field_text?.of_bind h
      obtain ⟨_, hline, h⟩ := field_nat.of_bind h
      obtain rfl := Option.some.inj h
      exact ⟨hname, hparent, hline⟩
    · cases h
  write_ne_null _ := nofun

end Outline

structure FormComponent.WellFormed (c : FormComponent) : Prop where
  name : Utf8.isValid c.name
  className : Utf8.isValid c.className
  depth : c.depth < countBound

theorem FormComponent.lawful :
    Lawful FormComponent.ofJson? FormComponent.toJson FormComponent.WellFormed where
  read_write {c} h := by
    rw [ofJson?, toJson, fields?_obj (by rfl) (by decide +kernel)]
    simp only [List.map_cons, List.map_nil, field_text.read_write h.name,
      field_text.read_write h.className, field_nat.read_write h.depth, Option.bind_eq_bind,
      Option.bind_some]
  admits {j c} h := by
    rw [ofJson?] at h
    split at h
    · obtain ⟨_, hname, h⟩ := field_text.of_bind h
      obtain ⟨_, hclassName, h⟩ := field_text.of_bind h
      obtain ⟨_, hdepth, h⟩ := field_nat.of_bind h
      obtain rfl := Option.some.inj h
      exact ⟨hname, hclassName, hdepth⟩
    · cases h
  write_ne_null _ := nofun

structure Form.WellFormed (f : Form) : Prop where
  name : Utf8.isValid f.name
  className : Utf8.isValid f.className
  unitName : Utf8.isValid f.unitName
  file : Utf8.isValid f.file
  components : ∀ c ∈ f.components, c.WellFormed

theorem Form.lawful : Lawful Form.ofJson? Form.toJson Form.WellFormed where
  read_write {f} h := by
    rw [ofJson?, toJson, fields?_obj (by rfl) (by decide +kernel)]
    simp only [List.map_cons, List.map_nil, field_text.read_write h.name,
      field_text.read_write h.className, field_text.read_write h.unitName,
      field_text.read_write h.file, FormComponent.lawful.list.required.read_write h.components,
      Option.bind_eq_bind, Option.bind_some]
  admits {j f} h := by
    rw [ofJson?] at h
    split at h
    · obtain ⟨_, hname, h⟩ := field_text.of_bind h
      obtain ⟨_, hclassName, h⟩ := field_text.of_bind h
      obtain ⟨_, hunitName, h⟩ := field_text.of_bind h
      obtain ⟨_, hfile, h⟩ := field_text.of_bind h
      obtain ⟨_, hcomponents, h⟩ := FormComponent.lawful.list.required.of_bind h
      obtain rfl := Option.some.inj h
      exact ⟨hname, hclassName, hunitName, hfile, hcomponents⟩
    · cases h
  write_ne_null _ := nofun

end PascalSurvey
