/-
PascalSurvey/Report/Facts.lean

The JSON form of what a unit holds: routines, queries, types and forms.
-/
import PascalSurvey.Bound
import PascalSurvey.Form
import PascalSurvey.Json.Codec
import PascalSurvey.Outline.Basic
import PascalSurvey.Routine.Method
import PascalSurvey.Sql.Query

namespace PascalSurvey

open Json

/-- Line numbers are below this bound. -/
def lineBound : Nat := Bound.word32

/-- Sizes and counts are below this bound. -/
def countBound : Nat := Bound.word64

namespace Routine

/-! ### Routines -/

def Kind.toJson (k : Kind) : Json := .str k.keyword

def Kind.ofJson? (j : Json) : Option Kind := do
  let n ← name? j
  Kind.all.find? fun k => k.keyword == n

/-- The name of a modifier in a report. -/
def Modifier.name : Modifier → Text
  | .none => "none"
  | .var => "var"
  | .const => "const"
  | .out => "out"

def Modifier.toJson (m : Modifier) : Json := .str m.name

def Modifier.ofJson? (j : Json) : Option Modifier := do
  let n ← name? j
  [Modifier.none, .var, .const, .out].find? fun m => m.name == n

def Parameter.toJson (p : Parameter) : Json :=
  .obj [("name", .str p.name), ("type_text", .str p.typeText), ("modifier", p.modifier.toJson)]

def Parameter.ofJson? (j : Json) : Option Parameter :=
  match fields? ["name", "type_text", "modifier"] j with
  | some [a, b, c] => do
    some ⟨← required text? a, ← required text? b, ← required Modifier.ofJson? c⟩
  | _ => none

def Method.toJson (m : Method) : Json :=
  .obj [("kind", m.kind.toJson), ("class_name", ofOption .str m.className), ("name", .str m.name),
    ("is_class_method", .bool m.isClassMethod), ("return_type", ofOption .str m.returnType),
    ("parameters", ofList Parameter.toJson m.parameters), ("source", .str m.source),
    ("start_line", .nat m.startLine), ("end_line", .nat m.endLine),
    ("terminated", .bool m.terminated)]

def Method.ofJson? (j : Json) : Option Method :=
  match fields? ["kind", "class_name", "name", "is_class_method", "return_type", "parameters",
      "source", "start_line", "end_line", "terminated"] j with
  | some [a, b, c, d, e, f, g, h, i, k] => do
    some {
      kind := ← required Kind.ofJson? a
      className := ← optional text? b
      name := ← required text? c
      isClassMethod := ← required bool? d
      returnType := ← optional text? e
      parameters := ← required (list? Parameter.ofJson?) f
      source := ← required text? g
      startLine := ← required (nat? lineBound) h
      endLine := ← required (nat? lineBound) i
      terminated := ← required bool? k }
  | _ => none

end Routine

/-! ### Queries -/

namespace Sql

/-- The name of an origin in a report. -/
def Origin.name : Origin → Text
  | .addSequence => "add_sequence"
  | .textAssignment => "text_assignment"

def Origin.toJson (o : Origin) : Json := .str o.name

def Origin.ofJson? (j : Json) : Option Origin := do
  let n ← name? j
  [Origin.addSequence, .textAssignment].find? fun o => o.name == n

def Query.toJson (q : Query) : Json :=
  .obj [("sql", .str q.sql), ("is_dynamic", .bool q.isDynamic), ("line", .nat q.line),
    ("method", .str q.method), ("class_name", ofOption .str q.className),
    ("origin", q.origin.toJson), ("parameters", ofList .str q.parameters),
    ("component", .str q.component)]

def Query.ofJson? (j : Json) : Option Query :=
  match fields? ["sql", "is_dynamic", "line", "method", "class_name", "origin", "parameters",
      "component"] j with
  | some [a, b, c, d, e, f, g, h] => do
    some {
      sql := ← required text? a
      isDynamic := ← required bool? b
      line := ← required (nat? lineBound) c
      method := ← required text? d
      className := ← optional text? e
      origin := ← required Origin.ofJson? f
      parameters := ← required (list? text?) g
      component := ← required text? h }
  | _ => none

end Sql

/-! ### Types and forms -/

namespace Outline

/-- The name of a kind of type in a report. -/
def TypeKind.name : TypeKind → Text
  | .class_ => "class"
  | .record => "record"
  | .interface => "interface"

def TypeKind.toJson (k : TypeKind) : Json := .str k.name

def TypeKind.ofJson? (j : Json) : Option TypeKind := do
  let n ← name? j
  [TypeKind.class_, .record, .interface].find? fun k => k.name == n

def TypeDecl.toJson (d : TypeDecl) : Json :=
  .obj [("name", .str d.name), ("kind", d.kind.toJson), ("parent", ofOption .str d.parent),
    ("line", .nat d.line)]

def TypeDecl.ofJson? (j : Json) : Option TypeDecl :=
  match fields? ["name", "kind", "parent", "line"] j with
  | some [a, b, c, d] => do
    some {
      name := ← required text? a
      kind := ← required TypeKind.ofJson? b
      parent := ← optional text? c
      line := ← required (nat? lineBound) d }
  | _ => none

end Outline

def FormComponent.toJson (c : FormComponent) : Json :=
  .obj [("name", .str c.name), ("class_name", .str c.className), ("depth", .nat c.depth)]

def FormComponent.ofJson? (j : Json) : Option FormComponent :=
  match fields? ["name", "class_name", "depth"] j with
  | some [a, b, c] => do
    some ⟨← required text? a, ← required text? b, ← required (nat? countBound) c⟩
  | _ => none

def Form.toJson (f : Form) : Json :=
  .obj [("name", .str f.name), ("class_name", .str f.className), ("unit_name", .str f.unitName),
    ("dfm_path", .str f.file), ("components", ofList FormComponent.toJson f.components)]

def Form.ofJson? (j : Json) : Option Form :=
  match fields? ["name", "class_name", "unit_name", "dfm_path", "components"] j with
  | some [a, b, c, d, e] => do
    some {
      name := ← required text? a
      className := ← required text? b
      unitName := ← required text? c
      file := ← required text? d
      components := ← required (list? FormComponent.ofJson?) e }
  | _ => none

end PascalSurvey
