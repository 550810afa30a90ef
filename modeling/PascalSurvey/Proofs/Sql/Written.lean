/-
PascalSurvey/Proofs/Sql/Written.lean

Queries as a program writes them.  A dataset component is given its query in one assignment
(`assigned`), or line by line with calls of `Add` after its lines have been cleared (`argument`).
Each of these statements is read as one, as it stands: nothing in it is masked, no statement ends
in it, and no word is stripped from it (`Sentence`).  So a text of such statements is cut into
them (`statements_program`), and the component, the property and the strings are read off each.

The name of the component must not be one of the words that are stripped from statements; the
strings may contain anything but a line break.

Main result: `extractFrom_written`.
-/
import PascalSurvey.Proofs.Sql.Component
import PascalSurvey.Proofs.Sql.Constant

namespace PascalSurvey.Sql

open Ascii

/-! ### Statements -/

/-- A text that stays as it is up to the semicolon behind it. -/
structure Whole (x : Text) : Prop where
  clean : ∀ r, Source.clean (x ++ semicolon :: r) = x ++ semicolon :: Source.clean r
  parts : ∀ r, Statement.partsFrom 0 (x ++ semicolon :: r) = x :: Statement.partsFrom 0 r

theorem partsFrom_semicolon (r : Text) :
    Statement.partsFrom 0 (semicolon :: r) = [] :: Statement.partsFrom 0 r := by
  rw [Statement.partsFrom, if_neg (by decide), if_neg (by decide), if_neg (by decide),
    if_pos (by decide)]

theorem whole_nil : Whole [] where
  clean _ := Source.clean_code rfl
  parts r := partsFrom_semicolon r

/-- A quiet text in front changes nothing. -/
theorem Quiet.whole {t x : Text} (h : Quiet t) (hx : Whole x) (hhead : x[0]? ≠ some quote) :
    Whole (t ++ x) := by
  have hr (r : Text) : (x ++ semicolon :: r)[0]? ≠ some quote :=
    head_append_ne hhead (head_ne (by decide) r)
  constructor
  · intro r
    rw [List.append_assoc, clean_quiet h (hr r), hx.clean, List.append_assoc]
  · intro r
    rw [List.append_assoc, partsFrom_quiet h, hx.parts, Source.onFirst_cons]

/-- A quiet text in parentheses is one whole. -/
theorem Quiet.whole_parens {t : Text} (h : Quiet t) (hhead : t[0]? ≠ some asterisk) :
    Whole (lparen :: (t ++ [rparen])) := by
  have hopen (r : Text) : Source.regionAt? (lparen :: (t ++ rparen :: r)) = none := by
    apply Source.regionAt?_lparen
    cases t with
    | nil => exact fun h => absurd (Option.some.inj h) (by decide)
    | cons b t => exact hhead
  constructor
  · intro r
    rw [List.cons_append, List.append_assoc, List.singleton_append, Source.clean_code (hopen _),
      clean_quiet h (head_ne (by decide) _), Source.clean_code rfl, Source.clean_code rfl]
    simp
  · intro r
    rw [List.cons_append, List.append_assoc, List.singleton_append, Statement.partsFrom,
      if_neg (by decide), if_pos (by decide), partsFrom_quiet h,
      Statement.partsFrom, if_neg (by decide), if_neg (by decide), if_pos (by decide),
      show 0 + 1 - 1 = 0 from rfl, partsFrom_semicolon]
    simp [Source.onFirst_cons]

/-- A text that is read as one statement, as it stands. -/
structure Sentence (x : Text) : Prop extends Whole x where
  ink : x ≠ [] ∧ Text.trim x = x ∧ Text.blankRun x = 0
  strip : ∀ offset, Statement.strip ⟨x, offset⟩ = ⟨x, offset⟩

/-- **A member of the SQL lines is a statement** if what follows it is a whole. -/
theorem IsComponent.sentence {v name rest : Text} (hv : IsComponent v)
    (hname : ∀ b ∈ name, isIdentByte b = true) (hrest : Whole rest)
    (hhead : rest[0]? ≠ some quote)
    (hlast : ∃ u c, name ++ rest = u ++ [c] ∧ c < 0x80 ∧ isBlankChar c.toNat = false) :
    Sentence (onLines v name rest) := by
  obtain ⟨b, r, hbr, hb⟩ := hv.start
  obtain ⟨u, c, hu, hc, hink⟩ := hlast
  have hfront : Quiet (v ++ dot :: (Text.ofString "SQL" ++ dot :: name)) := by
    have hplain {t : Text} (ht : ∀ b ∈ t, isIdentByte b = true) : ∀ b ∈ t, isPlain b = true :=
      fun b hb => isPlain_of_isIdentByte (ht b hb)
    refine .append_plain (hplain hv.bytes) (.plain rfl (.append_plain (hplain isIdentByte_sql)
      (.plain rfl ?_)))
    rw [← List.append_nil name]
    exact .append_plain (hplain hname) .nil
  have hb' := isIdentStart_isIdentByte hb
  have hnoBlank := not_isBlankChar_of_isIdentByte hb'
  have hwhole := hfront.whole hrest hhead
  rw [show (v ++ dot :: (Text.ofString "SQL" ++ dot :: name)) ++ rest = onLines v name rest by
    simp [onLines]] at hwhole
  have hbegin : onLines v name rest =
      b :: (r ++ dot :: (Text.ofString "SQL" ++ dot :: (name ++ rest))) := by
    rw [onLines, hbr, List.cons_append]
  have hend : onLines v name rest = (v ++ dot :: (Text.ofString "SQL" ++ dot :: u)) ++ [c] := by
    rw [onLines, hu]
    simp
  refine ⟨hwhole, ⟨?_, ?_, ?_⟩, hv.strip_eq _⟩
  · rw [hbegin]
    exact List.cons_ne_nil _ _
  · rw [Text.trim, hbegin, Text.trimStart_ink (isIdentByte_lt hb') hnoBlank, ← hbegin, hend,
      Text.trimEnd_ink hc hink]
  · rw [hbegin, Text.blankRun, Utf8.run_eq_zero (isIdentByte_lt hb') hnoBlank]

/-- Statements one after another. -/
def program (xs : List Text) : Text := xs.flatMap (· ++ [semicolon])

/-- Texts that stand one after another with one byte between them, from an offset on. -/
def located (offset : Nat) : List Text → List Statement
  | [] => []
  | x :: xs => ⟨x, offset⟩ :: located (offset + x.length + 1) xs

theorem program_cons (x : Text) (xs : List Text) :
    program (x :: xs) = x ++ semicolon :: program xs := by
  simp [program]

theorem clean_program {xs : List Text} (hxs : ∀ x ∈ xs, Sentence x) :
    Source.clean (program xs) = program xs := by
  induction xs with
  | nil => exact Source.clean_nil
  | cons x xs ih =>
    rw [program_cons, (hxs x List.mem_cons_self).clean,
      ih fun y hy => hxs y (List.mem_cons_of_mem _ hy)]

/-- **Statements are cut where they were put together.** -/
theorem statements_program {xs : List Text} (hxs : ∀ x ∈ xs, Sentence x) (offset : Nat) :
    (Statement.ofParts offset (Statement.partsFrom 0 (program xs))).map Statement.strip =
      located offset xs := by
  induction xs generalizing offset with
  | nil => simp [program, Statement.partsFrom, Statement.ofParts, Text.trim, Text.trimStart,
      Text.trimEnd, Text.dropBlanksBack, located]
  | cons x xs ih =>
    have hx := hxs x List.mem_cons_self
    rw [program_cons, hx.parts, Statement.ofParts]
    simp only [hx.ink.2.1, hx.ink.2.2, List.isEmpty_iff, hx.ink.1, if_false, Nat.add_zero,
      List.map_cons, hx.strip, ih fun y hy => hxs y (List.mem_cons_of_mem _ hy), located]

/-! ### Clearing the lines -/

section
variable {v : Text} (hv : IsComponent v)
include hv

theorem IsComponent.sentence_clear : Sentence (onLines v (Text.ofString "Clear") []) := by
  refine hv.sentence (List.all_eq_true.mp rfl) whole_nil (by simp) ?_
  exact ⟨Text.ofString "Clea", 0x72, by decide, by decide, by decide⟩

theorem IsComponent.clear?_eq :
    clear? (onLines v (Text.ofString "Clear") []) = some ⟨v, Text.ofString "SQL", []⟩ := by
  rw [clear?, hv.access?_eq (List.all_eq_true.mp rfl) _ (by simp [Utf8.run]), if_pos (by decide)]
  rfl

end

/-! ### Assigning the text, and adding a line -/

/-- What follows the property in an assignment. -/
def assigned (ss : List Text) : Text := space :: colon :: equals :: space :: sumOf ss

/-- What follows the member in a call of `Add`. -/
def argument (ss : List Text) : Text := lparen :: (sumOf ss ++ [rparen])

/-- Neither goes on with the access. -/
theorem run_assigned (ss : List Text) :
    Utf8.run (fun c => isWordChar c || c == 0x2E) (assigned ss) = 0 :=
  Utf8.run_eq_zero (b := space) (by decide) (by decide) _

theorem run_argument (ss : List Text) :
    Utf8.run (fun c => isWordChar c || c == 0x2E) (argument ss) = 0 :=
  Utf8.run_eq_zero (b := lparen) (by decide) (by decide) _

section
variable {v : Text} (hv : IsComponent v) {ss : List Text} (hne : ss ≠ [])
  (hss : ∀ s ∈ ss, newline ∉ s)
include hv hne

section
include hss

theorem IsComponent.sentence_assignment :
    Sentence (onLines v (Text.ofString "Text") (assigned ss)) := by
  have hquiet : Quiet (assigned ss) :=
    .plain rfl (.plain rfl (.plain rfl (.plain rfl (quiet_sumOf hss))))
  have hwhole := hquiet.whole whole_nil (by simp)
  rw [List.append_nil] at hwhole
  obtain ⟨-, m, hm⟩ := sumOf_ends hne
  refine hv.sentence (List.all_eq_true.mp rfl) hwhole (head_ne (by decide) _) ?_
  refine ⟨Text.ofString "Text" ++ space :: colon :: equals :: space :: m, quote, ?_, by decide,
    by decide⟩
  simp [assigned, hm]

theorem IsComponent.sentence_add :
    Sentence (onLines v (Text.ofString "Add") (argument ss)) := by
  obtain ⟨⟨m, hm⟩, -⟩ := sumOf_ends hne
  have hhead : (sumOf ss)[0]? ≠ some asterisk := by
    rw [hm, List.getElem?_cons_zero]
    decide
  refine hv.sentence (List.all_eq_true.mp rfl) ((quiet_sumOf hss).whole_parens hhead)
    (head_ne (by decide) _) ?_
  refine ⟨Text.ofString "Add" ++ lparen :: sumOf ss, rparen, ?_, by decide, by decide⟩
  simp [argument]

end

omit hne in
theorem IsComponent.clear?_assignment :
    clear? (onLines v (Text.ofString "Text") (assigned ss)) = none := by
  rw [clear?, hv.access?_eq (List.all_eq_true.mp rfl) _ (run_assigned ss), if_neg (by decide)]
  rfl

omit hne in
theorem IsComponent.assignment?_eq :
    assignment? (onLines v (Text.ofString "Text") (assigned ss)) = some (v, space :: sumOf ss) := by
  have htrim : Text.trimStart (assigned ss) = colon :: equals :: space :: sumOf ss := by
    rw [assigned, Text.trimStart_blank (by decide) (by decide),
      Text.trimStart_ink (by decide) (by decide)]
  rw [assignment?, hv.access?_eq (List.all_eq_true.mp rfl) _ (run_assigned ss),
    if_pos (by decide)]
  show (Text.after? (Text.ofString ":=") (Text.trimStart (assigned ss))).bind _ = _
  rw [htrim]
  rfl

include hss in
theorem IsComponent.addedExpression?_eq :
    addedExpression? v (Text.ofString "SQL") (onLines v (Text.ofString "Add") (argument ss)) =
      some (sumOf ss) := by
  have htrim : Text.trimStart (argument ss) = argument ss := by
    rw [argument, Text.trimStart_ink (by decide) (by decide)]
  have hclose : Source.closing? 0 (argument ss) = some ((sumOf ss).length + 1) := by
    obtain ⟨⟨m, hm⟩, -⟩ := sumOf_ends hne
    have hopen : Source.regionAt? (argument ss) = none := by
      rw [argument, hm]
      rfl
    rw [argument] at hopen ⊢
    rw [Source.closing?, hopen]
    have hinner : Source.closing? (0 + 1) (sumOf ss ++ [rparen]) = some (sumOf ss).length := by
      rw [closing?_quiet (quiet_sumOf hss) (head_ne (by decide) _), Source.closing?,
        show Source.regionAt? [rparen] = none from rfl]
      simp [show rparen ≠ lparen by decide]
    simp [hinner]
  rw [addedExpression?, hv.access?_eq (List.all_eq_true.mp rfl) _ (run_argument ss),
    if_pos (by decide)]
  have hslice : Text.slice (argument ss) 1 ((sumOf ss).length + 1) = sumOf ss := by
    rw [argument, Text.slice, List.drop_succ_cons, List.drop_zero, Nat.add_sub_cancel,
      List.take_left' rfl]
  simp only [Option.bind_eq_bind, Option.bind_some, htrim, hclose]
  rw [if_pos ⟨rfl, Text.eqFold_iff.mpr rfl, Text.eqFold_iff.mpr rfl⟩, if_pos (by simp [argument]),
    hslice]

end

/-! ### Queries -/

theorem extractFrom_program {xs : List Text} (hxs : ∀ x ∈ xs, Sentence x) (firstLine : Nat)
    (method : Text) (className : Option Text) :
    extractFrom (program xs) firstLine method className =
      (findings (located 0 xs)).map fun f =>
        { sql := f.sql
          isDynamic := f.isDynamic
          line := firstLine + Text.breaks ((program xs).take f.statement.offset)
          method
          className
          origin := f.origin
          parameters := parametersOf f.sql
          component := componentName f.component } := by
  simp only [extractFrom]
  rw [show Source.mask .comments (program xs) = program xs from clean_program hxs, Statement.split,
    statements_program hxs]

theorem length_located (offset : Nat) (xs : List Text) :
    (located offset xs).length = xs.length := by
  induction xs generalizing offset with
  | nil => rfl
  | cons x xs ih => rw [located, List.length_cons, ih, List.length_cons]

section
variable {v : Text} (hv : IsComponent v)
include hv

/-- All lines that are added are read. -/
theorem IsComponent.addedExpressions_eq {sss : List (List Text)}
    (hsss : ∀ ss ∈ sss, ss ≠ [] ∧ ∀ s ∈ ss, newline ∉ s) (offset : Nat) :
    addedExpressions v (Text.ofString "SQL")
      (located offset (sss.map fun ss => onLines v (Text.ofString "Add") (argument ss))) =
        sss.map sumOf := by
  induction sss generalizing offset with
  | nil => rfl
  | cons ss sss ih =>
    obtain ⟨hne, hss⟩ := hsss ss List.mem_cons_self
    rw [List.map_cons, located, addedExpressions, hv.addedExpression?_eq hne hss,
      ih fun ss' hss' => hsss ss' (List.mem_cons_of_mem _ hss')]
    rfl

/-- An assignment is one finding. -/
theorem IsComponent.findings_assignment {ss : List Text} (hne : ss ≠ [])
    (hss : ∀ s ∈ ss, newline ∉ s) (hquery : isQuery ss.flatten = true) :
    findings (located 0 [onLines v (Text.ofString "Text") (assigned ss)]) =
      [⟨⟨onLines v (Text.ofString "Text") (assigned ss), 0⟩, ss.flatten, false, .textAssignment,
        v⟩] := by
  rw [located, located, findings, hv.clear?_assignment, hv.assignment?_eq]
  simp only [resolve_space, resolve_sumOf hne hss]
  simp [assignedText, Finding.of?, hquery, findings]

omit hv in
/-- The lines are joined with a space between them. -/
theorem joinChunks_sumOf {sss : List (List Text)} (hne : sss ≠ [])
    (hsss : ∀ ss ∈ sss, ss ≠ [] ∧ ∀ s ∈ ss, newline ∉ s) :
    joinChunks ((sss.map sumOf).map resolve) =
      (Text.join [space] (sss.map List.flatten), false) := by
  have hresolve : (sss.map sumOf).map resolve = sss.map fun ss => ⟨ss.flatten, false, false⟩ := by
    rw [List.map_map]
    refine List.map_congr_left ?_
    intro ss hmem
    exact resolve_sumOf (hsss ss hmem).1 (hsss ss hmem).2
  rw [hresolve]
  obtain ⟨ss, sss, rfl⟩ := List.exists_cons_of_ne_nil hne
  simp [joinChunks, Function.comp_def]

/-- Clearing the lines and adding to them is one finding. -/
theorem IsComponent.findings_adding {sss : List (List Text)} (hne : sss ≠ [])
    (hsss : ∀ ss ∈ sss, ss ≠ [] ∧ ∀ s ∈ ss, newline ∉ s)
    (hquery : isQuery (Text.join [space] (sss.map List.flatten)) = true) :
    findings (located 0 (onLines v (Text.ofString "Clear") [] ::
        sss.map fun ss => onLines v (Text.ofString "Add") (argument ss))) =
      [⟨⟨onLines v (Text.ofString "Clear") [], 0⟩, Text.join [space] (sss.map List.flatten), false,
        .addSequence, v⟩] := by
  rw [located, findings, hv.clear?_eq]
  simp only [hv.addedExpressions_eq hsss, joinChunks_sumOf hne hsss, List.isEmpty_iff,
    List.map_eq_nil_iff, hne]
  rw [List.drop_of_length_le (by simp [length_located])]
  simp [Finding.of?, hquery, findings]

/-- **Main.**  Whatever its strings contain besides line breaks, a query that is written as
constants is found, and nothing else is found:
* an assignment gives one query, whose text is the strings of the sum one after another;
* a `Clear` with `Add` calls behind it gives one query, whose text is the texts of the calls
  with a space between them. -/
theorem extractFrom_written (firstLine : Nat) (method : Text) (className : Option Text) :
    (∀ ss : List Text, ss ≠ [] → (∀ s ∈ ss, newline ∉ s) → isQuery ss.flatten = true →
      extractFrom (v ++ Text.ofString ".SQL.Text := " ++ sumOf ss ++ Text.ofString ";")
          firstLine method className =
        [{ sql := ss.flatten
           isDynamic := false
           line := firstLine
           method
           className
           origin := .textAssignment
           parameters := parametersOf ss.flatten
           component := v }]) ∧
    ∀ sss : List (List Text), sss ≠ [] → (∀ ss ∈ sss, ss ≠ [] ∧ ∀ s ∈ ss, newline ∉ s) →
      isQuery (Text.join [space] (sss.map List.flatten)) = true →
      extractFrom (v ++ Text.ofString ".SQL.Clear;" ++ sss.flatMap fun ss =>
          v ++ Text.ofString ".SQL.Add(" ++ sumOf ss ++ Text.ofString ");")
          firstLine method className =
        [{ sql := Text.join [space] (sss.map List.flatten)
           isDynamic := false
           line := firstLine
           method
           className
           origin := .addSequence
           parameters := parametersOf (Text.join [space] (sss.map List.flatten))
           component := v }] := by
  constructor
  · intro ss hne hss hquery
    have hprogram : v ++ Text.ofString ".SQL.Text := " ++ sumOf ss ++ Text.ofString ";" =
        program [onLines v (Text.ofString "Text") (assigned ss)] := by
      rw [show Text.ofString ".SQL.Text := " = dot :: (Text.ofString "SQL" ++
        dot :: (Text.ofString "Text" ++ [space, colon, equals, space])) by decide +kernel]
      simp [program, onLines, assigned]
      rfl
    rw [hprogram, extractFrom_program (by simpa using hv.sentence_assignment hne hss),
      hv.findings_assignment hne hss hquery]
    simp [hv.componentName_eq, Text.breaks]
  · intro sss hne hsss hquery
    have hprogram : v ++ Text.ofString ".SQL.Clear;" ++ (sss.flatMap fun ss =>
        v ++ Text.ofString ".SQL.Add(" ++ sumOf ss ++ Text.ofString ");") =
        program (onLines v (Text.ofString "Clear") [] ::
          sss.map fun ss => onLines v (Text.ofString "Add") (argument ss)) := by
      rw [show Text.ofString ".SQL.Clear;" = dot :: (Text.ofString "SQL" ++
          dot :: (Text.ofString "Clear" ++ [semicolon])) by decide +kernel,
        show Text.ofString ".SQL.Add(" = dot :: (Text.ofString "SQL" ++
          dot :: (Text.ofString "Add" ++ [lparen])) by decide +kernel,
        show Text.ofString ");" = [rparen, semicolon] by decide +kernel]
      simp [program, onLines, argument, List.flatMap_map]
    have hsentences : ∀ x ∈ onLines v (Text.ofString "Clear") [] ::
        sss.map fun ss => onLines v (Text.ofString "Add") (argument ss), Sentence x := by
      intro x hx
      rcases List.mem_cons.mp hx with rfl | hx
      · exact hv.sentence_clear
      · obtain ⟨ss, hmem, rfl⟩ := List.mem_map.mp hx
        exact hv.sentence_add (hsss ss hmem).1 (hsss ss hmem).2
    rw [hprogram, extractFrom_program hsentences, hv.findings_adding hne hsss hquery]
    simp [hv.componentName_eq, Text.breaks]

end

/-- Two strings with most of what a reader of the source looks for. -/
def awkwardStrings : List Text :=
  Text.ofStrings ["SELECT ';', '(* ' + :P // \x7b", "end; then) FROM T WHERE A = '"]

/-- The sum of the two. -/
def awkwardSum : Text :=
  "'SELECT '';'', ''(* '' + :P // \x7b' + 'end; then) FROM T WHERE A = '''"

theorem extractFrom_awkwardSum :
    IsComponent (Text.ofString "qry") ∧ isQuery awkwardStrings.flatten = true ∧
      (∀ s ∈ awkwardStrings, newline ∉ s) ∧
      (extractFrom (Text.ofString "qry.SQL.Text := " ++ awkwardSum ++ Text.ofString ";") 1
        (Text.ofString "Load") none).map (·.sql) = [awkwardStrings.flatten] ∧
      (extractFrom (Text.ofString "qry.SQL.Clear;qry.SQL.Add(" ++ awkwardSum ++ Text.ofString ");") 1
        (Text.ofString "Load") none).map (·.sql) = [awkwardStrings.flatten] := by
  have hv : IsComponent (Text.ofString "qry") :=
    ⟨⟨0x71, Text.ofString "ry", by decide +kernel, by decide⟩, by decide +kernel, by decide +kernel⟩
  have hquery : isQuery awkwardStrings.flatten = true := by decide +kernel
  have hbreaks : ∀ s ∈ awkwardStrings, newline ∉ s := by decide +kernel
  obtain ⟨hassigned, hadded⟩ := extractFrom_written hv 1 (Text.ofString "Load") none
  refine ⟨hv, hquery, hbreaks, ?_, ?_⟩
  · have htext : Text.ofString "qry.SQL.Text := " ++ awkwardSum ++ Text.ofString ";" =
        Text.ofString "qry" ++ Text.ofString ".SQL.Text := " ++ sumOf awkwardStrings ++
          Text.ofString ";" := by
      decide +kernel
    rw [htext, hassigned awkwardStrings (by decide) hbreaks hquery]
    rfl
  · have htext : Text.ofString "qry.SQL.Clear;qry.SQL.Add(" ++ awkwardSum ++ Text.ofString ");" =
        Text.ofString "qry" ++ Text.ofString ".SQL.Clear;" ++ [awkwardStrings].flatMap fun ss =>
          Text.ofString "qry" ++ Text.ofString ".SQL.Add(" ++ sumOf ss ++ Text.ofString ");" := by
      decide +kernel
    rw [htext, hadded [awkwardStrings] (by decide) (by simpa using ⟨by decide, hbreaks⟩)
      (by decide +kernel)]
    rfl

end PascalSurvey.Sql
