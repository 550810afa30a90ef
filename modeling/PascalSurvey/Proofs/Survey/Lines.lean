/-
PascalSurvey/Proofs/Survey/Lines.lean

Lines of a unit.  The line of a method is counted in the section that it is cut out of, and the
line of a query in the text of its method, without the comments.  Each count begins on the line
on which the text it is made in begins, and neither a cut nor a mask adds or takes off a line
break, so the lines are those of the unit (`Method.StandsAt.lineOf`).

Main result: the lines of the methods and queries of a unit are those on which they stand
(`surveyText_lines`).
-/
import PascalSurvey.Proofs.Routine.Excerpt
import PascalSurvey.Proofs.Sql.Blocks
import PascalSurvey.Survey.Unit

namespace PascalSurvey

open Source

/-! ### Methods -/

/-- A method stands at an offset of a unit.  Its text is there, with the comments and the code
that it has when it is read alone, and its lines are those of the unit. -/
structure Routine.Method.StandsAt (t : Text) (p : Nat) (m : Routine.Method) : Prop where
  source : m.source <+: t.drop p
  clean : clean m.source = Text.slice (clean t) p (p + m.source.length)
  code : ∀ i < m.source.length, isCode m.source i = isCode t (p + i)
  startLine : m.startLine = Text.lineOf t p
  endLine : m.endLine = m.startLine + Text.breaks m.source

/-- An offset of a method is one of the unit, on the line that is counted in the method. -/
theorem Routine.Method.StandsAt.lineOf {t : Text} {p : Nat} {m : Routine.Method}
    (h : m.StandsAt t p) {i : Nat} (hi : i ≤ m.source.length) :
    m.startLine + Text.breaks (m.source.take i) = Text.lineOf t (p + i) := by
  obtain ⟨r, hr⟩ := h.source
  rw [h.startLine, ← Text.lineOf_add, ← hr, List.take_append_of_le_length hi]

/-- Every method that is found in a unit stands in it. -/
theorem Routine.Method.exists_standsAt {t : Text} {file : Path} {m : Routine.Method}
    (hm : m ∈ Routine.Method.extract ((Outline.ofText t file).body t).1
      ((Outline.ofText t file).body t).2) : ∃ p, m.StandsAt t p := by
  obtain ⟨a, b, ha, hb, hab, hbody⟩ := Outline.body_eq_slice t file
  rw [hbody] at hm
  obtain ⟨spans, hspans⟩ := Routine.exists_yields (Text.slice t a b) 0
  rw [hspans.extract, List.mem_map] at hm
  obtain ⟨s, hs, rfl⟩ := hm
  obtain ⟨e, hle, hse, hout, hsplit, hsource⟩ :=
    (hspans.fits s hs).source_eq_slice (Text.lineOf t a)
  have hlen := Text.length_slice (a := s.header.start) hle
  rw [Text.length_slice hb.le_length] at hle
  have hbound : a + e ≤ b := by omega
  refine ⟨a + s.header.start, ?_, ?_, ?_, ?_, rfl⟩
  · rw [hsource, Text.slice_slice t hbound]
    exact List.take_prefix _ _
  · rw [hsource, hlen, clean, mask_comments_slice hout hsplit hse,
      mask_comments_slice ha hb.unsplit hab, Text.slice_slice _ hbound]
    congr 1
    omega
  · intro i hi
    rw [hsource, hlen] at hi
    rw [hsource, isCode_slice hout hsplit (by omega), isCode_slice ha hb.unsplit (by omega),
      Nat.add_assoc]
  · show Text.lineOf t a + Text.breaks ((Text.slice t a b).take s.header.start) = _
    rw [Text.slice, List.take_take, Nat.min_eq_left (by omega), Text.lineOf_add]

/-! ### Queries -/

/-- A block of a method stands in the unit in which the method stands at the offset `p`.  It is
made of the statements of the method and begins inside the method, with a code byte of the
unit. -/
structure Sql.Block.StandsAt (t : Text) (p : Nat) (m : Routine.Method) (b : Sql.Block) : Prop where
  fits : b.Fits (Sql.statements m.source)
  inside : b.offset < m.source.length
  code : isCode t (p + b.offset) = true
  statement : b.finding.statement.text <+: (clean t).drop (p + b.offset)
  startLine_le : m.startLine ≤ Text.lineOf t (p + b.offset)
  le_endLine : Text.lineOf t (p + b.offset) ≤ m.endLine

namespace Routine.Method.StandsAt

variable {t : Text} {p : Nat} {m : Routine.Method} {b : Sql.Block} (h : m.StandsAt t p)
include h

theorem endLine_le : m.endLine ≤ Text.breaks t + 1 := by
  have hline := h.lineOf (Nat.le_refl m.source.length)
  rw [List.take_length, ← h.endLine] at hline
  rw [hline]
  exact Nat.succ_le_succ (Text.breaks_take_le t _)

theorem standsAt (hb : b.Fits (Sql.statements m.source)) : b.StandsAt t p m := by
  obtain ⟨hcode, htext⟩ := hb.located
  have hinside : b.offset < m.source.length := by
    obtain ⟨-, x, r, hdrop, -⟩ := code_of_isCode hcode
    exact (List.getElem?_eq_some_iff.mp (Text.getElem?_of_drop hdrop)).1
  have hline := h.lineOf (Nat.le_of_lt hinside)
  refine ⟨hb, hinside, ?_, ?_, ?_, ?_⟩
  · rw [← h.code _ hinside, hcode]
  · rw [h.clean, Text.drop_slice] at htext
    exact htext.trans (List.take_prefix _ _)
  · omega
  · have := Text.breaks_take_le m.source b.offset
    have := h.endLine
    omega

end Routine.Method.StandsAt

/-! ### Units -/

namespace Survey

/-- A query as the configuration wants it. -/
def reported (c : Config) (q : Sql.Query) : Sql.Query :=
  match quotedWords? c with
  | some words => quoteQuery words q
  | none => q

theorem queriesOf_eq (c : Config) (methods : List Routine.Method) :
    queriesOf c methods = (methods.flatMap Sql.extract).map (reported c) := by
  cases h : quotedWords? c with
  | some words =>
    have hquote : reported c = quoteQuery words := by
      funext q
      rw [reported, h]
    rw [queriesOf, h, hquote]
  | none =>
    have hkeep : reported c = id := by
      funext q
      rw [reported, h]
      rfl
    rw [queriesOf, h, hkeep, List.map_id]

theorem line_reported (c : Config) (q : Sql.Query) : (reported c q).line = q.line := by
  rw [reported]
  split
  · rw [quoteQuery]
    split <;> rfl
  · rfl

/-- **Main.**  The lines of a unit are those of its file:
* every method stands at an offset of the text, its first line is the line of that offset, and
  its last one is as many lines below as its text has line breaks;
* every query of a method is read from a block of statements of the method, which begins with
  code, and its line is the line on which the block begins;
* the blocks stand in the order of the queries, and no statement is in two of them. -/
theorem surveyText_lines (tree : FileTree) (c : Config) (t : Text) (file : Path) (u : SourceUnit) :
    let unit := (surveyText tree c t file u).unit
    (∀ m ∈ unit.methods, ∃ p, m.StandsAt t p ∧
      (Text.breaks t < Bound.word32 - 1 → m.endLine < Bound.word32) ∧
      ∃ bs : List Sql.Block,
        (Sql.extract m = bs.map fun b => b.query m (Text.lineOf t (p + b.offset))) ∧
        (∀ b ∈ bs, b.StandsAt t p m) ∧
        bs.Pairwise fun a b => a.head + a.adds < b.head ∧ a.offset < b.offset) ∧
    (c.extractsSql = true →
      unit.queries = (unit.methods.flatMap Sql.extract).map (reported c)) ∧
    ∀ q, (reported c q).line = q.line := by
  refine ⟨fun m hm => ?_, fun hsql => ?_, line_reported c⟩
  · obtain ⟨p, hp⟩ := Routine.Method.exists_standsAt hm
    obtain ⟨bs, hapart, hextract⟩ := Sql.extract_eq m
    have hat (b : Sql.Block) (hb : b ∈ bs) : b.StandsAt t p m := hp.standsAt (hapart.fits b hb).2
    refine ⟨p, hp, fun hbreaks => ?_, bs, ?_, hat, ?_⟩
    · have := hp.endLine_le
      omega
    · rw [hextract]
      refine List.map_congr_left fun b hb => ?_
      rw [breaks_take_mask, hp.lineOf (Nat.le_of_lt (hat b hb).inside)]
    · exact hapart.apart.and hapart.offset_lt
  · rw [← queriesOf_eq]
    exact if_pos hsql

/-- A unit with a query behind a condition, whose lines are cleared on line 6, and one whose text
is assigned on line 9. -/
def guardedUnit : Text :=
  Text.ofString <|
    "unit U;\nimplementation\nprocedure T.A;\nbegin\n  if X then begin // first\n" ++
    "    Q.SQL.Clear;\n    Q.SQL.Add('select 1');\n  end;\n" ++
    "  Q.SQL.Text := 'delete from t';\nend;\nend."

theorem surveyText_guardedUnit :
    ∃ m ∈ (surveyText .empty Config.default guardedUnit [] (.named [])).unit.methods,
      m.startLine = 3 ∧ m.endLine = 10 ∧ m.endLine < Bound.word32 ∧
      (Sql.extract m).map (·.line) = [6, 9] ∧
      ∃ p, m.StandsAt guardedUnit p ∧ ∃ bs : List Sql.Block,
        bs.map (fun b => Text.lineOf guardedUnit (p + b.offset)) = [6, 9] ∧
        (∀ b ∈ bs, b.StandsAt guardedUnit p m) ∧
        bs.Pairwise fun a b => a.head + a.adds < b.head ∧ a.offset < b.offset := by
  have hlines : (surveyText .empty Config.default guardedUnit [] (.named [])).unit.methods.map
      (fun m => (m.startLine, m.endLine, (Sql.extract m).map (·.line))) = [(3, 10, [6, 9])] := by
    decide +kernel
  obtain ⟨m, hm, heq⟩ := List.mem_map.mp (hlines ▸ List.mem_singleton_self _)
  simp only [Prod.mk.injEq] at heq
  obtain ⟨hstart, hend, hquery⟩ := heq
  obtain ⟨hmethods, -, -⟩ := surveyText_lines .empty Config.default guardedUnit [] (.named [])
  obtain ⟨p, hp, hbound, bs, hbs, hat, hapart⟩ := hmethods m hm
  refine ⟨m, hm, hstart, hend, hbound (by decide +kernel), hquery, p, hp, bs, ?_, hat, hapart⟩
  rw [← hquery, hbs, List.map_map]
  rfl

end Survey
end PascalSurvey
