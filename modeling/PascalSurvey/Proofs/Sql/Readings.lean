/-
PascalSurvey/Proofs/Sql/Readings.lean

What a query is read from.  A reading names the statement that a query begins with and the
expressions that its text is made of.  An assignment has one expression.  A statement that clears
the lines has those of all statements right behind it that add a line, and there is at least one
(`Reading.Fits`).

A statement accesses one member of the lines at most, because the members have different first
letters (`Accesses.letter_eq`).  So a statement that adds a line begins no reading, which makes
readings disjoint (`Reading.Fits.behind`), and each is determined by its first statement
(`Reading.Fits.eq_of_head`).  Each round of the search takes one reading and goes on behind it, so
the induction is over the rounds, and no reading is passed over (`findsFrom_findings`).

Main result: the queries of a text are what all its readings write, in the order of the text
(`exists_readBy`).
-/
import Mathlib.Data.List.Basic
import PascalSurvey.Proofs.Sql.Statements

namespace PascalSurvey.Sql

open Ascii

/-! ### Members -/

/-- A statement accesses a member whose name begins with a letter. -/
def Accesses (w : UInt8) (t : Text) : Prop := ∃ ws a, access? (w :: ws) t = some a

/-- The member that is accessed has its name behind the last dot. -/
theorem exists_member {member t : Text} {a : Access} (h : access? member t = some a) :
    ∃ owner name, Text.cutLast? dot (t.take (Utf8.run (fun c => isWordChar c || c == 0x2E) t)) =
      some (owner, name) ∧ spells member name = true := by
  rw [access?] at h
  obtain ⟨⟨owner, name⟩, howner, h⟩ := Option.bind_eq_some_iff.mp h
  obtain ⟨⟨component, property⟩, -, h⟩ := Option.bind_eq_some_iff.mp h
  dsimp only at h
  split at h
  · next hcond =>
    rw [Bool.and_eq_true, Bool.and_eq_true] at hcond
    exact ⟨owner, name, howner, hcond.1.1⟩
  · cases h

section
variable {w w' : UInt8} {t : Text}

/-- **No statement accesses two members**, if their first letters differ and have no case variants
beyond ASCII. -/
theorem Accesses.letter_eq (h : Accesses w t) (h' : Accesses w' t) (hw : w ∉ [0x73, 0x6B])
    (hw' : w' ∉ [0x73, 0x6B]) : w = w' := by
  obtain ⟨ws, a, h⟩ := h
  obtain ⟨ws', a', h'⟩ := h'
  obtain ⟨owner, name, hname, hspells⟩ := exists_member h
  obtain ⟨owner', name', hname', hspells'⟩ := exists_member h'
  rw [hname] at hname'
  obtain ⟨-, rfl⟩ := Prod.mk.inj (Option.some.inj hname')
  have hletter {w : UInt8} {ws : Text} (h : spells (w :: ws) name = true)
      (hw : w ∉ [0x73, 0x6B]) : name[0]?.map lower = some w := by
    simp only [List.mem_cons, List.not_mem_nil, not_or] at hw
    exact Text.matchFold?_lower (beq_iff_eq.mp h) hw.1 hw.2.1
  have hsame := hletter hspells' hw'
  rw [hletter hspells hw] at hsame
  exact Option.some.inj hsame

/-- A statement that clears the lines accesses `clear`. -/
theorem accesses_of_clear? {a : Access} (h : clear? t = some a) : Accesses 0x63 t :=
  ⟨_, a, (Option.filter_eq_some_iff.mp h).1⟩

/-- A statement that assigns a text accesses `text`. -/
theorem accesses_of_assignment? {p : Text × Text} (h : assignment? t = some p) :
    Accesses 0x74 t := by
  obtain ⟨a, ha, -⟩ := Option.bind_eq_some_iff.mp h
  exact ⟨_, a, ha⟩

/-- A statement that adds a line accesses `add`. -/
theorem accesses_of_addedExpression? {component property e : Text}
    (h : addedExpression? component property t = some e) : Accesses 0x61 t := by
  obtain ⟨a, ha, -⟩ := Option.bind_eq_some_iff.mp h
  exact ⟨_, a, ha⟩

/-- A statement that clears the lines assigns no text. -/
theorem assignment?_ne_of_clear? {a : Access} {p : Text × Text} (h : clear? t = some a) :
    assignment? t ≠ some p := by
  intro hassign
  have := (accesses_of_clear? h).letter_eq (accesses_of_assignment? hassign)
  exact absurd (this (by decide) (by decide)) (by decide)

end

/-! ### Readings -/

/-- What a query is read from: the number of the statement it begins with, that statement, the
component and the expressions. -/
structure Reading where
  head : Nat
  statement : Statement
  origin : Origin
  component : Text
  expressions : List Text

namespace Reading

/-- The number of statements that belong to it behind the first one. -/
def adds (r : Reading) : Nat :=
  match r.origin with
  | .textAssignment => 0
  | .addSequence => r.expressions.length

/-- What the expressions write, and whether it is dynamic. -/
def written (r : Reading) : Text × Bool := joinChunks (r.expressions.map resolve)

/-- Whether it is reported. -/
def isQuery (r : Reading) : Bool := Sql.isQuery r.written.1

def finding (r : Reading) : Finding :=
  ⟨r.statement, r.written.1, r.written.2, r.origin, r.component⟩

/-- Its query, in a source text whose first line is `firstLine`. -/
def query (source : Text) (firstLine : Nat) (method : Text) (className : Option Text)
    (r : Reading) : Query where
  sql := r.written.1
  isDynamic := r.written.2
  line := firstLine + Text.breaks ((Source.clean source).take r.statement.offset)
  method
  className
  origin := r.origin
  parameters := parametersOf r.written.1
  component := componentName r.component

/-- A reading stands among statements.  The statements that add a line are all that follow the
first one: where the expressions end, there is none that adds another. -/
inductive Fits (ss : List Statement) : Reading → Prop
  | assigned {i : Nat} {s : Statement} {component e : Text} : ss[i]? = some s →
      assignment? s.text = some (component, e) → Fits ss ⟨i, s, .textAssignment, component, [e]⟩
  | added {i : Nat} {s : Statement} {a : Access} {es : List Text} : ss[i]? = some s →
      clear? s.text = some a → es ≠ [] →
      (∀ j ≤ es.length, es[j]? =
        ss[i + 1 + j]?.bind fun s => addedExpression? a.component a.property s.text) →
      Fits ss ⟨i, s, .addSequence, a.component, es⟩

/-- Two lists are equal if both are read off one sequence up to where it ends. -/
theorem eq_of_getElem?_eq {es es' : List Text} {f : Nat → Option Text}
    (h : ∀ j ≤ es.length, es[j]? = f j) (h' : ∀ j ≤ es'.length, es'[j]? = f j) : es = es' := by
  have hle {es es' : List Text} (h : ∀ j ≤ es.length, es[j]? = f j)
      (h' : ∀ j ≤ es'.length, es'[j]? = f j) : es'.length ≤ es.length := by
    by_contra hlt
    have hend := h es.length (Nat.le_refl _)
    rw [← h' es.length (by omega), List.getElem?_eq_none (Nat.le_refl _)] at hend
    have := List.getElem?_eq_none_iff.mp hend.symm
    omega
  have hlen : es.length = es'.length := Nat.le_antisymm (hle h' h) (hle h h')
  refine List.ext_getElem? fun j => ?_
  by_cases hj : j ≤ es.length
  · rw [h j hj, h' j (hlen ▸ hj)]
  · rw [List.getElem?_eq_none (by omega), List.getElem?_eq_none (by omega)]

section
variable {ss : List Statement} {i : Nat} {r r' : Reading} {rs : List Reading}

theorem Fits.expressions_ne_nil (h : r.Fits ss) : r.expressions ≠ [] := by
  cases h with
  | assigned _ _ => exact List.cons_ne_nil _ _
  | added _ _ hne _ => exact hne

theorem Fits.statement_eq (h : r.Fits ss) : ss[r.head]? = some r.statement := by
  cases h with
  | assigned hs _ => exact hs
  | added hs _ _ _ => exact hs

theorem Fits.head_lt (h : r.Fits ss) : r.head < ss.length :=
  (List.getElem?_eq_some_iff.mp h.statement_eq).1

/-- No reading begins with a statement that adds a line. -/
theorem Fits.not_adds (h : r.Fits ss) : ¬Accesses 0x61 r.statement.text := by
  intro hadd
  cases h with
  | assigned _ hassign =>
    have := hadd.letter_eq (accesses_of_assignment? hassign)
    exact absurd (this (by decide) (by decide)) (by decide)
  | added _ hclear _ _ =>
    have := hadd.letter_eq (accesses_of_clear? hclear)
    exact absurd (this (by decide) (by decide)) (by decide)

/-- **Readings are disjoint**: the next one begins behind all that belong to this one. -/
theorem Fits.behind (h : r.Fits ss) (h' : r'.Fits ss) (hlt : r.head < r'.head) :
    r.head + r.adds < r'.head := by
  cases h with
  | assigned _ _ => exact hlt
  | @added i s a es _ _ _ hadds =>
    show i + es.length < r'.head
    replace hlt : i < r'.head := hlt
    by_contra hle
    have hj : r'.head - (i + 1) < es.length := by omega
    have he := hadds _ (Nat.le_of_lt hj)
    rw [List.getElem?_eq_getElem hj, Nat.add_sub_cancel' hlt, h'.statement_eq] at he
    exact h'.not_adds (accesses_of_addedExpression? he.symm)

/-- **A reading is determined by its first statement.** -/
theorem Fits.eq_of_head (h : r.Fits ss) (h' : r'.Fits ss) (hhead : r.head = r'.head) : r = r' := by
  obtain ⟨i, s, origin, component, es⟩ := r
  obtain ⟨i', s', origin', component', es'⟩ := r'
  obtain rfl : i = i' := hhead
  obtain rfl : s = s' := Option.some.inj (h.statement_eq.symm.trans h'.statement_eq)
  cases h with
  | assigned _ hassign =>
    cases h' with
    | assigned _ hassign' =>
      obtain ⟨rfl, rfl⟩ := Prod.mk.inj (Option.some.inj (hassign.symm.trans hassign'))
      rfl
    | added _ hclear' _ _ => exact absurd hassign (assignment?_ne_of_clear? hclear')
  | added _ hclear _ hadds =>
    cases h' with
    | assigned _ hassign' => exact absurd hassign' (assignment?_ne_of_clear? hclear)
    | added _ hclear' _ hadds' =>
      obtain rfl := Option.some.inj (hclear.symm.trans hclear')
      rw [eq_of_getElem?_eq hadds hadds']

/-- The readings from one of the statements on, one behind the other. -/
structure InTurn (ss : List Statement) (i : Nat) (rs : List Reading) : Prop where
  mem_iff : ∀ r, r ∈ rs ↔ i ≤ r.head ∧ r.Fits ss
  ordered : rs.Pairwise fun a b => a.head + a.adds < b.head

theorem InTurn.nil (h : ss.length ≤ i) : InTurn ss i [] := by
  refine ⟨fun r => ⟨fun hr => absurd hr List.not_mem_nil, ?_⟩, .nil⟩
  rintro ⟨hle, hfits⟩
  have := hfits.head_lt
  omega

/-- A statement that begins no reading is skipped. -/
theorem InTurn.skip (h : InTurn ss (i + 1) rs) (hi : ∀ r : Reading, r.Fits ss → r.head ≠ i) :
    InTurn ss i rs := by
  refine ⟨fun r => (h.mem_iff r).trans ⟨?_, ?_⟩, h.ordered⟩
  · rintro ⟨hle, hfits⟩
    exact ⟨Nat.le_of_succ_le hle, hfits⟩
  · rintro ⟨hle, hfits⟩
    exact ⟨Nat.lt_of_le_of_ne hle (Ne.symm (hi r hfits)), hfits⟩

/-- The search goes on behind a reading. -/
theorem InTurn.cons (hr : r.Fits ss) (h : InTurn ss (r.head + r.adds + 1) rs) :
    InTurn ss r.head (r :: rs) := by
  constructor
  · intro r'
    rw [List.mem_cons, h.mem_iff]
    constructor
    · rintro (rfl | ⟨hle, hfits⟩)
      · exact ⟨Nat.le_refl _, hr⟩
      · exact ⟨by omega, hfits⟩
    · rintro ⟨hle, hfits⟩
      rcases Nat.eq_or_lt_of_le hle with heq | hlt
      · exact .inl (hfits.eq_of_head hr heq.symm)
      · exact .inr ⟨hr.behind hfits hlt, hfits⟩
  · exact List.pairwise_cons.mpr ⟨fun r' hr' => ((h.mem_iff r').mp hr').1, h.ordered⟩

end

end Reading

/-! ### The search -/

/-- An assignment writes what a single added line would write. -/
theorem assignedText_eq_joinChunks (r : Resolved) : assignedText r = joinChunks [r] := by
  simp [assignedText, joinChunks, Text.join]

/-- The lines that are added are those of all statements at the head that add one. -/
theorem getElem?_addedExpressions (component property : Text) (ss : List Statement) {j : Nat}
    (hj : j ≤ (addedExpressions component property ss).length) :
    (addedExpressions component property ss)[j]? =
      ss[j]?.bind fun s => addedExpression? component property s.text := by
  induction ss generalizing j with
  | nil => rfl
  | cons s ss ih =>
    rw [addedExpressions] at hj ⊢
    cases he : addedExpression? component property s.text with
    | none =>
      rw [he] at hj
      obtain rfl : j = 0 := by simpa using hj
      simp [he]
    | some e =>
      rw [he] at hj
      cases j with
      | zero => simp [he]
      | succ j =>
        rw [List.getElem?_cons_succ, List.getElem?_cons_succ]
        exact ih (by simpa using hj)

/-- The statement at the head of what is left, and what the search goes on with. -/
theorem head_of_drop {ss rest : List Statement} {i : Nat} {s : Statement}
    (h : ss.drop i = s :: rest) : ss[i]? = some s ∧ ss.drop (i + 1) = rest := by
  constructor
  · rw [← List.head?_drop, h, List.head?_cons]
  · rw [← List.drop_drop, h, List.drop_succ_cons, List.drop_zero]

namespace Reading

section
variable {ss : List Statement} {i : Nat} {r : Reading} {s : Statement}

/-- The expressions of a reading that adds lines are those that the search takes. -/
theorem Fits.expressions_eq {a : Access} (h : r.Fits ss) (hs : ss[r.head]? = some s)
    (hclear : clear? s.text = some a) :
    r.expressions = addedExpressions a.component a.property (ss.drop (r.head + 1)) := by
  obtain rfl := Option.some.inj (hs.symm.trans h.statement_eq)
  cases h with
  | assigned _ hassign => exact absurd hassign (assignment?_ne_of_clear? hclear)
  | added _ hclear' _ hadds =>
    obtain rfl := Option.some.inj (hclear'.symm.trans hclear)
    refine eq_of_getElem?_eq hadds fun j hj => ?_
    rw [getElem?_addedExpressions _ _ _ hj, List.getElem?_drop]

/-- What a search finds from one of the statements on is what the readings there write. -/
def FindsFrom (ss : List Statement) (i : Nat) (fs : List Finding) : Prop :=
  ∃ rs, InTurn ss i rs ∧ fs = (rs.filter isQuery).map finding

theorem FindsFrom.skip {fs : List Finding} (h : FindsFrom ss (i + 1) fs)
    (hi : ∀ r : Reading, r.Fits ss → r.head ≠ i) : FindsFrom ss i fs := by
  obtain ⟨rs, hrs, hfs⟩ := h
  exact ⟨rs, hrs.skip hi, hfs⟩

/-- A reading is found if it is a query, and the search goes on behind it in either case. -/
theorem FindsFrom.cons {fs : List Finding} (hr : r.Fits ss)
    (h : FindsFrom ss (r.head + r.adds + 1) fs) :
    FindsFrom ss r.head (Finding.of? r.statement r.written r.origin r.component ++ fs) := by
  obtain ⟨rs, hrs, rfl⟩ := h
  refine ⟨r :: rs, .cons hr hrs, ?_⟩
  rw [List.filter_cons, isQuery, Finding.of?]
  split
  · rfl
  · rfl

end

end Reading

/-- **The findings are what the readings write**, one behind the other. -/
theorem findsFrom_findings {ss rest : List Statement} {i : Nat} (h : ss.drop i = rest) :
    Reading.FindsFrom ss i (findings rest) := by
  fun_induction findings rest generalizing i with
  | case1 => exact ⟨[], .nil (List.drop_eq_nil_iff.mp h), rfl⟩
  | case2 s rest a hclear added hempty =>
    rename_i ih
    obtain ⟨hs, hrest⟩ := head_of_drop h
    refine (ih hrest).skip ?_
    rintro r hr rfl
    -- nothing is added behind this statement, and a reading has an expression
    apply hr.expressions_ne_nil
    rw [hr.expressions_eq hs hclear, hrest]
    exact List.isEmpty_iff.mp hempty
  | case3 s rest a hclear added hne =>
    rename_i ih
    obtain ⟨hs, rfl⟩ := head_of_drop h
    rw [List.isEmpty_iff] at hne
    have hfits : Reading.Fits ss ⟨i, s, .addSequence, a.component, added⟩ := by
      refine .added hs hclear hne fun j hj => ?_
      rw [← List.getElem?_drop]
      exact getElem?_addedExpressions _ _ _ hj
    -- the search goes on behind the statements that add a line
    have hdrop : ss.drop (i + added.length + 1) = (ss.drop (i + 1)).drop added.length := by
      rw [List.drop_drop]
      congr 1
      omega
    exact .cons hfits (ih hdrop)
  | case4 s rest hclear component e hassign ih =>
    obtain ⟨hs, hrest⟩ := head_of_drop h
    rw [assignedText_eq_joinChunks]
    exact .cons (r := ⟨i, s, .textAssignment, component, [e]⟩) (.assigned hs hassign) (ih hrest)
  | case5 s rest hclear hassign ih =>
    obtain ⟨hs, hrest⟩ := head_of_drop h
    refine (ih hrest).skip ?_
    rintro r hr rfl
    obtain rfl := Option.some.inj (hs.symm.trans hr.statement_eq)
    cases hr with
    | assigned _ hassign' => exact Option.some_ne_none _ (hassign'.symm.trans hassign)
    | added _ hclear' _ _ => exact Option.some_ne_none _ (hclear'.symm.trans hclear)

/-! ### The queries of a text -/

/-- The queries of a text are what the readings of its statements write. -/
structure ReadBy (source : Text) (firstLine : Nat) (method : Text) (className : Option Text)
    (rs : List Reading) : Prop where
  inTurn : Reading.InTurn (statements source) 0 rs
  queries : extractFrom source firstLine method className =
    (rs.filter Reading.isQuery).map (Reading.query source firstLine method className)

/-- **The queries of a text are those of its readings.** -/
theorem exists_readBy (source : Text) (firstLine : Nat) (method : Text)
    (className : Option Text) : ∃ rs, ReadBy source firstLine method className rs := by
  obtain ⟨rs, hrs, hfs⟩ := findsFrom_findings (List.drop_zero : (statements source).drop 0 = _)
  refine ⟨rs, hrs, ?_⟩
  rw [extractFrom]
  show (findings (statements source)).map _ = _
  rw [hfs, List.map_map]
  rfl

end PascalSurvey.Sql
