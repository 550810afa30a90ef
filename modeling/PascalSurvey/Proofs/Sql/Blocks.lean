/-
PascalSurvey/Proofs/Sql/Blocks.lean

Which statements a query stands for.  A query takes a block of consecutive statements: the one
that assigns its text, or the one that clears the lines together with all the statements behind it
that add a line (`Block.Fits`).  The blocks are those of the readings that are queries
(`Reading.InTurn.apart`), so no statement is in two of them.

Main result: the queries of a method are read from such blocks (`extract_eq`), which begin with
code (`Block.Fits.located`) and stand in the order of the text (`Apart.offset_lt`).
-/
import PascalSurvey.Proofs.Sql.Readings

namespace PascalSurvey.Sql

open Source

/-! ### Blocks -/

/-- The statements that a query is read from: the number of the first one, the number of those
behind it that add a line, and what is read off them. -/
structure Block where
  head : Nat
  adds : Nat
  finding : Finding

/-- Where the first statement begins. -/
def Block.offset (b : Block) : Nat := b.finding.statement.offset

/-- The query of a method that is read from a block, if the block begins on the given line. -/
def Block.query (b : Block) (m : Routine.Method) (line : Nat) : Query where
  sql := b.finding.sql
  isDynamic := b.finding.isDynamic
  line
  method := m.name
  className := m.className
  origin := b.finding.origin
  parameters := parametersOf b.finding.sql
  component := componentName b.finding.component

/-- A block stands among statements.  It is one statement that assigns a SQL text, or one that
clears the SQL lines of a component with those behind it that add lines to the same component. -/
inductive Block.Fits (ss : List Statement) : Block → Prop
  | assigned {i : Nat} {s : Statement} {component e : Text} : ss[i]? = some s →
      assignment? s.text = some (component, e) →
      Fits ss ⟨i, 0, ⟨s, (assignedText (resolve e)).1, (assignedText (resolve e)).2,
        .textAssignment, component⟩⟩
  | added {i : Nat} {s : Statement} {a : Access} {es : List Text} : ss[i]? = some s →
      clear? s.text = some a → es ≠ [] →
      ((ss.drop (i + 1)).take es.length).map
        (fun s => addedExpression? a.component a.property s.text) = es.map some →
      Fits ss ⟨i, es.length, ⟨s, (joinChunks (es.map resolve)).1, (joinChunks (es.map resolve)).2,
        .addSequence, a.component⟩⟩

theorem Block.Fits.statement_eq {ss : List Statement} {b : Block} (h : b.Fits ss) :
    ss[b.head]? = some b.finding.statement := by
  cases h with
  | assigned hs _ => exact hs
  | added hs _ _ _ => exact hs

/-- Blocks that stand among statements from one of them on, none of which is in two blocks. -/
structure Apart (ss : List Statement) (i : Nat) (bs : List Block) : Prop where
  fits : ∀ b ∈ bs, i ≤ b.head ∧ b.Fits ss
  apart : bs.Pairwise fun a b => a.head + a.adds < b.head

/-! ### The block of a reading -/

/-- The statements of a reading and what is read off them. -/
def Reading.block (r : Reading) : Block := ⟨r.head, r.adds, r.finding⟩

theorem Reading.Fits.block {ss : List Statement} {r : Reading} (h : r.Fits ss) :
    r.block.Fits ss := by
  cases h with
  | @assigned i s component e hs hassign =>
    show Block.Fits ss ⟨i, 0, ⟨s, (joinChunks [resolve e]).1, (joinChunks [resolve e]).2, _, _⟩⟩
    rw [← assignedText_eq_joinChunks]
    exact .assigned hs hassign
  | @added i s a es hs hclear hne hadds =>
    refine .added hs hclear hne (List.ext_getElem? fun j => ?_)
    rw [List.getElem?_map, List.getElem?_map, List.getElem?_take]
    split
    · next hj =>
      have he := (hadds j (Nat.le_of_lt hj)).symm
      rw [List.getElem?_eq_getElem hj] at he ⊢
      obtain ⟨s', hs', he⟩ := Option.bind_eq_some_iff.mp he
      rw [List.getElem?_drop, hs', Option.map_some, Option.map_some, he]
    · next hj =>
      rw [List.getElem?_eq_none (Nat.le_of_not_lt hj)]
      rfl

/-- Readings in turn have blocks that are apart. -/
theorem Reading.InTurn.apart {ss : List Statement} {i : Nat} {rs : List Reading}
    (h : InTurn ss i rs) : Apart ss i ((rs.filter isQuery).map block) := by
  constructor
  · intro b hb
    obtain ⟨r, hr, rfl⟩ := List.mem_map.mp hb
    obtain ⟨hle, hfits⟩ := (h.mem_iff r).mp (List.mem_filter.mp hr).1
    exact ⟨hle, hfits.block⟩
  · exact List.pairwise_map.mpr (h.ordered.filter _)

/-! ### Blocks in a text -/

section
variable {source : Text} {b : Block}

/-- A block begins with a statement on a component. -/
theorem Block.Fits.exists_access {ss : List Statement} (h : b.Fits ss) :
    ∃ member a, access? member b.finding.statement.text = some a := by
  cases h with
  | assigned _ h =>
    obtain ⟨a, ha, -⟩ := Option.bind_eq_some_iff.mp h
    exact ⟨_, a, ha⟩
  | added _ h _ _ => exact ⟨_, _, (Option.filter_eq_some_iff.mp h).1⟩

/-- It stands in the text, and begins with code. -/
theorem Block.Fits.located (h : b.Fits (statements source)) :
    isCode source b.offset = true ∧
      b.finding.statement.text <+: (clean source).drop b.offset := by
  obtain ⟨hi, hs⟩ := (inOrder_statements source).within _ (List.mem_of_getElem? h.statement_eq)
  obtain ⟨member, a, ha⟩ := h.exists_access
  refine ⟨isCode_of_access? hs ha, ?_⟩
  rw [hs.text_eq]
  exact List.take_prefix _ _

/-- Blocks begin in the order of the text. -/
theorem Apart.offset_lt {i : Nat} {bs : List Block} (h : Apart (statements source) i bs) :
    bs.Pairwise fun a b => a.offset < b.offset := by
  refine h.apart.imp_of_mem fun {a b} ha hb hlt => ?_
  obtain ⟨hia, ha⟩ := List.getElem?_eq_some_iff.mp (h.fits a ha).2.statement_eq
  obtain ⟨hib, hb⟩ := List.getElem?_eq_some_iff.mp (h.fits b hb).2.statement_eq
  have hstop := List.pairwise_iff_getElem.mp (inOrder_statements source).ordered a.head b.head
    hia hib (by omega)
  rw [ha, hb] at hstop
  show a.finding.statement.offset < b.finding.statement.offset
  omega

end

/-- **The queries of a method are read from blocks of its statements.** -/
theorem extract_eq (m : Routine.Method) :
    ∃ bs : List Block, Apart (statements m.source) 0 bs ∧
      extract m =
        bs.map fun b => b.query m (m.startLine + Text.breaks ((clean m.source).take b.offset)) := by
  obtain ⟨rs, hrs⟩ := exists_readBy m.source m.startLine m.name m.className
  refine ⟨_, hrs.inTurn.apart, ?_⟩
  rw [extract, hrs.queries, List.map_map]
  rfl

end PascalSurvey.Sql
