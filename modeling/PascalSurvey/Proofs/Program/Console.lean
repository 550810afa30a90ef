/-
PascalSurvey/Proofs/Program/Console.lean

The directive of console applications.  A text that is one (`ConsoleDirective`) has no closing
brace before its last byte, so where it begins in code it is a comment of its own
(`ConsoleDirective.regionAt?`); then the directive is `Live`.

The reader knows nothing of comments and literals, and takes the directive wherever it begins.
Main result: what it finds are the live directives and those that are `Hidden` in a comment or a
literal (`isConsole_iff`), and the framework of a project may rest on a hidden one
(`isConsole_hidden`).
-/
import PascalSurvey.Program
import PascalSurvey.Project.Framework
import PascalSurvey.Proofs.Program.Conditions

namespace PascalSurvey

open Ascii Source

namespace Program

/-! ### What the directive is -/

/-- The directive of console applications, in any case and with any white space. -/
inductive ConsoleDirective : Text → Prop
  | mk {key gap value rest : Text} (hkey : Text.SpellsWord "apptype" key)
      (hgap : Utf8.Chars isBlankChar gap) (hne : gap ≠ [])
      (hvalue : Text.SpellsWord "console" value) (hrest : Utf8.Chars isBlankChar rest) :
      ConsoleDirective ([lbrace, dollar] ++ (key ++ (gap ++ (value ++ (rest ++ [rbrace])))))

theorem chars_take_blankRun (t : Text) : Utf8.Chars isBlankChar (t.take (Text.blankRun t)) :=
  Utf8.chars_take_run isBlankChar t

theorem run_blank_console {value : Text} (h : Text.SpellsWord "console" value) (r : Text) :
    Utf8.run isBlankChar (value ++ r) = 0 := by
  cases h with
  | cons hchar _ =>
    rw [List.append_assoc]
    exact hchar.run_blank (by decide) _

/-- **The directive is read where one begins.** -/
theorem consoleDirective_iff {t : Text} :
    consoleDirective t = true ↔ ∃ s r, ConsoleDirective s ∧ t = s ++ r := by
  rw [consoleDirective, Option.isSome_iff_exists]
  constructor
  · rintro ⟨behind, h⟩
    obtain ⟨r, hr, h⟩ := Option.bind_eq_some_iff.mp h
    obtain ⟨n, hn, h⟩ := Option.bind_eq_some_iff.mp h
    obtain rfl := Text.after?_eq_some_iff.mp hr
    obtain ⟨key, r, rfl, hkey, rfl⟩ := Text.matchFold?_eq_some_iff.mp hn
    dsimp only at h
    rw [List.drop_left] at h
    split at h
    · cases h
    next hpos =>
    obtain ⟨m, hm, h⟩ := Option.bind_eq_some_iff.mp h
    obtain ⟨value, y, hy, hvalue, rfl⟩ := Text.matchFold?_eq_some_iff.mp hm
    rw [List.drop_length_add_append] at hy
    rw [Nat.add_assoc, List.drop_length_add_append, ← List.drop_drop, hy, List.drop_left] at h
    refine ⟨_, behind, .mk hkey (chars_take_blankRun r) ?_ hvalue (chars_take_blankRun y), ?_⟩
    · intro hnil
      have hlen := congrArg List.length hnil
      have hle : Text.blankRun r ≤ r.length := Utf8.run_le isBlankChar r
      rw [List.length_take, Nat.min_eq_left hle] at hlen
      exact hpos hlen
    · conv_lhs => rw [← List.take_append_drop (Text.blankRun r) r, hy,
        ← List.take_append_drop (Text.blankRun y) y, Text.after?_eq_some_iff.mp h]
      simp only [List.append_assoc]
      rfl
  · rintro ⟨s, r, ⟨hkey, hgap, hne, hvalue, hrest⟩, rfl⟩
    next key gap value rest =>
    have hpos : gap.length ≠ 0 := fun h => hne (List.eq_nil_of_length_eq_zero h)
    have hclose : Utf8.run isBlankChar ([rbrace] ++ r) = 0 :=
      Utf8.run_eq_zero (by decide) (by decide) r
    have hbrace : Text.after? "\x7b$" ([lbrace, dollar] ++ (key ++ (gap ++ (value ++ (rest ++
        ([rbrace] ++ r)))))) = some (key ++ (gap ++ (value ++ (rest ++ ([rbrace] ++ r))))) :=
      Text.after?_eq_some_iff.mpr rfl
    refine ⟨r, ?_⟩
    simp only [List.append_assoc]
    rw [hbrace]
    simp only [Option.bind_eq_bind, Option.bind_some]
    rw [Text.matchFold?_eq_some_iff.mpr ⟨key, _, rfl, hkey, rfl⟩]
    simp only [Option.bind_some, List.drop_left]
    rw [Text.blankRun_append hgap (run_blank_console hvalue _), if_neg hpos,
      List.drop_length_add_append, List.drop_left,
      Text.matchFold?_eq_some_iff.mpr ⟨value, _, rfl, hvalue, rfl⟩, Option.bind_some]
    rw [Nat.add_assoc, List.drop_length_add_append, List.drop_length_add_append, List.drop_left,
      Text.blankRun_append hrest hclose, List.drop_left]
    exact Text.after?_eq_some_iff.mpr rfl

/-- No comment ends inside the directive. -/
theorem ConsoleDirective.exists_body {s : Text} (h : ConsoleDirective s) :
    ∃ body, s = lbrace :: (body ++ [rbrace]) ∧ rbrace ∉ body := by
  obtain ⟨hkey, hgap, -, hvalue, hrest⟩ := h
  next key gap value rest =>
  refine ⟨dollar :: (key ++ (gap ++ (value ++ rest))), by simp, ?_⟩
  have hblank : isBlankChar rbrace.toNat = false := by decide
  have hword {word a : Text} (h : Text.SpellsWord word a) (hlower : ∀ w ∈ word, isLower w = true) :
      rbrace ∉ a :=
    not_mem_of_letters (fun _ => h.mem hlower) (by decide) (by decide)
  simp only [List.mem_cons, List.mem_append, not_or]
  exact ⟨by decide, hword hkey (List.all_eq_true.mp rfl), hgap.not_mem (by decide) hblank,
    hword hvalue (List.all_eq_true.mp rfl), hrest.not_mem (by decide) hblank⟩

/-- **Where the directive begins in code, it is a comment.** -/
theorem ConsoleDirective.regionAt? {s : Text} (h : ConsoleDirective s) (r : Text) :
    Source.regionAt? (s ++ r) = some (.braceComment, s.length) := by
  obtain ⟨body, rfl, hbody⟩ := h.exists_body
  show some (Region.braceComment, 1 + throughBrace (body ++ [rbrace] ++ r)) = _
  rw [List.append_assoc, throughBrace_skip hbody]
  show some (Region.braceComment, 1 + (body.length + 1)) = _
  simp only [List.length_cons, List.length_append, List.length_nil]
  congr 2
  omega

/-! ### Live and hidden directives -/

/-- One of the comments of a program is the directive. -/
def Live (t : Text) : Prop := ∃ s, .region .braceComment s ∈ pieces t ∧ ConsoleDirective s

/-- A directive begins inside a comment or a literal of a program. -/
def Hidden (t : Text) : Prop :=
  ∃ i < t.length, ¬Outside t i ∧ ∃ s r, ConsoleDirective s ∧ t.drop i = s ++ r

/-- The live directives are those that begin outside comments and literals. -/
theorem live_iff {t : Text} :
    Live t ↔ ∃ i < t.length, Outside t i ∧ ∃ s r, ConsoleDirective s ∧ t.drop i = s ++ r := by
  constructor
  · rintro ⟨s, hmem, hs⟩
    obtain ⟨ps, qs, hp⟩ := List.append_of_mem hmem
    have hout : Outside t (textOf ps).length := ⟨ps, _, hp, rfl⟩
    have htext : t = textOf ps ++ (s ++ textOf qs) := by
      conv_lhs => rw [← flatMap_text_pieces t, hp]
      rw [List.flatMap_append, List.flatMap_cons]
      rfl
    have hlen : (textOf ps).length < t.length := by
      obtain ⟨body, rfl, -⟩ := hs.exists_body
      rw [htext]
      simp only [List.length_append, List.length_cons]
      omega
    exact ⟨_, hlen, hout, s, textOf qs, hs, by
      conv_lhs => rw [htext, List.drop_left]⟩
  · rintro ⟨i, -, hout, s, r, hs, hdrop⟩
    obtain ⟨ps, hp, -⟩ := hout.pieces_eq
    refine ⟨s, ?_, hs⟩
    rw [hp, hdrop, pieces_region (hs.regionAt? r), List.take_left]
    simp

theorem isConsole_eq_true_iff {t : Text} :
    isConsole t = true ↔ ∃ i < t.length, ∃ s r, ConsoleDirective s ∧ t.drop i = s ++ r := by
  induction t with
  | nil => simp [isConsole]
  | cons b t ih =>
    rw [isConsole, Bool.or_eq_true, consoleDirective_iff, ih]
    constructor
    · rintro (h | ⟨i, hi, h⟩)
      · exact ⟨0, Nat.succ_pos _, h⟩
      · exact ⟨i + 1, Nat.succ_lt_succ hi, h⟩
    · rintro ⟨i, hi, h⟩
      cases i with
      | zero => exact .inl h
      | succ i => exact .inr ⟨i, Nat.lt_of_succ_lt_succ hi, h⟩

instance (t : Text) : Decidable (Live t) :=
  decidable_of_iff (∃ i < t.length, Outside t i ∧ consoleDirective (t.drop i) = true)
    (by simp only [live_iff, consoleDirective_iff])

/-- **A program counts as a console application where it says so live or hidden**, and a project
is one of a console if its project file says it, or says nothing and neither do the used units. -/
theorem isConsole_iff (t : Text) :
    (isConsole t = true ↔ Live t ∨ Hidden t) ∧
      ∀ value uses, Framework.detect value uses (isConsole t) = .console ↔
        value.bind Framework.ofValue? = some .console ∨
          value.bind Framework.ofValue? = none ∧
            (∀ u ∈ uses, Framework.isInside "Vcl" u.name = false ∧
              Text.eqFold u.name "Forms" = false ∧ Framework.isInside "FMX" u.name = false) ∧
            (Live t ∨ Hidden t) := by
  have hconsole : isConsole t = true ↔ Live t ∨ Hidden t := by
    rw [isConsole_eq_true_iff, live_iff, Hidden]
    constructor
    · rintro ⟨i, hi, h⟩
      by_cases hout : Outside t i
      · exact .inl ⟨i, hi, hout, h⟩
      · exact .inr ⟨i, hi, hout, h⟩
    · rintro (⟨i, hi, -, h⟩ | ⟨i, hi, -, h⟩) <;> exact ⟨i, hi, h⟩
  refine ⟨hconsole, fun value uses => ?_⟩
  rw [← hconsole, Framework.detect]
  rcases value.bind Framework.ofValue? with - | f
  · -- the units and the directive decide
    simp only [true_and, reduceCtorEq, false_or]
    split
    · next hvcl =>
      obtain ⟨u, hu, hname⟩ := List.any_eq_true.mp hvcl
      refine iff_of_false nofun fun ⟨hnone, _⟩ => ?_
      rw [(hnone u hu).1, (hnone u hu).2.1] at hname
      cases hname
    · next hvcl =>
      split
      · next hfmx =>
        obtain ⟨u, hu, hname⟩ := List.any_eq_true.mp hfmx
        refine iff_of_false nofun fun ⟨hnone, _⟩ => ?_
        rw [(hnone u hu).2.2] at hname
        cases hname
      · next hfmx =>
        have hnone : ∀ u ∈ uses, Framework.isInside "Vcl" u.name = false ∧
            Text.eqFold u.name "Forms" = false ∧ Framework.isInside "FMX" u.name = false := by
          intro u hu
          have hvcl := List.any_eq_false.mp (Bool.not_eq_true _ ▸ hvcl) u hu
          have hfmx := List.any_eq_false.mp (Bool.not_eq_true _ ▸ hfmx) u hu
          simp only [Bool.or_eq_true, not_or, Bool.not_eq_true] at hvcl hfmx
          exact ⟨hvcl.1, hvcl.2, hfmx⟩
        rw [and_iff_right hnone]
        cases isConsole t <;> simp
  · simp

/-- The directive behind two slashes. -/
def commentedProgram : Text := "program P;\n// \x7b$APPTYPE CONSOLE\x7d\nbegin end."

/-- The directive in a comment between parentheses with stars. -/
def starredProgram : Text := "program P; (* \x7b$APPTYPE CONSOLE\x7d *) begin end."

/-- The directive in a literal. -/
def quotedProgram : Text := "program P; begin Log('\x7b$APPTYPE CONSOLE\x7d') end."

theorem isConsole_hidden :
    (isConsole commentedProgram = true ∧ ¬Live commentedProgram ∧
      Framework.detect none (uses commentedProgram) (isConsole commentedProgram) = .console) ∧
    (isConsole starredProgram = true ∧ ¬Live starredProgram) ∧
    isConsole quotedProgram = true ∧ ¬Live quotedProgram := by
  decide +kernel

end Program

end PascalSurvey
