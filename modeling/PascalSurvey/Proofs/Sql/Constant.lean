/-
PascalSurvey/Proofs/Sql/Constant.lean

String constants as a program writes them.  A string is written with its quotes doubled and
between two quotes (`constant`), and a sum of strings with a plus sign and spaces between the
constants (`sumOf`).

What a string contains is invisible to every reader of the source: comment openers, brackets,
semicolons and plus signs stand inside a literal.  `Quiet` says this of a text once, with one
constructor for a byte that means nothing to any reader and one for a constant.  The readers go
over a quiet text as a whole (`clean_quiet`, `partsFrom_quiet`, `closing?_quiet`).

Main result: a sum of strings is read back as the strings, one after another
(`resolve_sumOf`).
-/
import PascalSurvey.Proofs.Source.Split
import PascalSurvey.Proofs.Text.Trim
import PascalSurvey.Sql.Expression
import PascalSurvey.Sql.Statement

namespace PascalSurvey.Sql

open Ascii

/-! ### One string -/

/-- A string with every quote doubled. -/
def doubled : Text → Text
  | [] => []
  | b :: r => if b = quote then quote :: quote :: doubled r else b :: doubled r

/-- A string as a constant. -/
def constant (s : Text) : Text := quote :: (doubled s ++ [quote])

theorem constant_append (s r : Text) : constant s ++ r = quote :: (doubled s ++ quote :: r) := by
  simp [constant]

theorem constant_eq_concat (s : Text) : constant s = (quote :: doubled s) ++ [quote] := rfl

/-- Doubled quotes do not end a literal. -/
theorem literalTail_append_doubled {s : Text} (hs : newline ∉ s) (r : Text) :
    Source.literalTail (doubled s ++ r) = (doubled s).length + Source.literalTail r := by
  induction s with
  | nil => rw [doubled, List.nil_append, List.length_nil, Nat.zero_add]
  | cons b s ih =>
    have hrest := ih fun h => hs (List.mem_cons_of_mem _ h)
    rw [doubled]
    split
    · next hb =>
      show 2 + Source.literalTail (doubled s ++ r) = (doubled s).length + 2 + _
      rw [hrest]
      omega
    · next hb =>
      have hbreak : b ≠ newline := fun h => hs (h ▸ List.mem_cons_self)
      rw [List.cons_append, Source.literalTail, hrest, List.length_cons]
      · omega
      · rintro _ rfl
        exact absurd rfl hb
      · exact hb
      · exact hbreak

/-- **A constant ends where it should**: at the first quote that is not one of two. -/
theorem literalTail_doubled {s r : Text} (hs : newline ∉ s) (hr : r[0]? ≠ some quote) :
    Source.literalTail (doubled s ++ quote :: r) = (doubled s).length + 1 := by
  rw [literalTail_append_doubled hs, Source.literalTail_close hr]

theorem take_literalTail {s r : Text} (hs : newline ∉ s) (hr : r[0]? ≠ some quote) :
    (doubled s ++ quote :: r).take (Source.literalTail (doubled s ++ quote :: r)) =
      doubled s ++ [quote] := by
  rw [literalTail_doubled hs hr, List.append_cons, List.take_left' (by simp)]

theorem drop_literalTail {s r : Text} (hs : newline ∉ s) (hr : r[0]? ≠ some quote) :
    (doubled s ++ quote :: r).drop (Source.literalTail (doubled s ++ quote :: r)) = r := by
  rw [literalTail_doubled hs hr, List.append_cons, List.drop_left' (by simp)]

theorem regionAt?_constant {s r : Text} (hs : newline ∉ s) (hr : r[0]? ≠ some quote) :
    Source.regionAt? (constant s ++ r) = some (.literal, (constant s).length) := by
  rw [constant_append]
  show some (Source.Region.literal, 1 + Source.literalTail (doubled s ++ quote :: r)) = _
  rw [literalTail_doubled hs hr]
  simp [constant, Nat.add_comm]

/-- The quotes of a string become single again, whatever follows. -/
theorem singleQuotes_append (s r : Text) :
    singleQuotes (doubled s ++ r) = s ++ singleQuotes r := by
  induction s with
  | nil => rfl
  | cons b s ih =>
    rw [doubled]
    split
    · next hb =>
      show quote :: singleQuotes (doubled s ++ r) = b :: (s ++ singleQuotes r)
      rw [ih, hb]
    · next hb =>
      rw [List.cons_append, singleQuotes, ih, List.cons_append]
      rintro _ rfl
      exact absurd rfl hb

theorem singleQuotes_doubled (s : Text) : singleQuotes (doubled s) = s := by
  have h := singleQuotes_append s []
  rwa [List.append_nil, singleQuotes, List.append_nil] at h

theorem literalParts?_constant {s r : Text} (hs : newline ∉ s) (hr : r[0]? ≠ some quote) :
    literalParts? (constant s ++ r) = (literalParts? r).map (s ++ ·) := by
  have hvalue : stringValue? (doubled s ++ [quote]) = some s := by
    simp [stringValue?, singleQuotes_doubled]
  rw [constant_append, literalParts?]
  simp only [if_true, take_literalTail hs hr, drop_literalTail hs hr, hvalue]

theorem parseLiteral?_constant {s : Text} (hs : newline ∉ s) :
    parseLiteral? (constant s) = some s := by
  have h := literalParts?_constant (r := []) hs (by simp)
  rw [List.append_nil] at h
  rw [parseLiteral?, h]
  simp [constant, literalParts?]

/-! ### Pieces of a split -/

/-- **A constant is not split**, also if the quote of another one follows: the two are then one
literal, and every string between two of its quotes goes in front of the item behind it. -/
theorem onFirst_constant {f : Text → List Text} (hf : Source.KeepsLiterals f) {s : Text}
    (hs : newline ∉ s) (r : Text) :
    f (constant s ++ r) = Source.onFirst (constant s) (f r) := by
  suffices h : ∀ x, (∀ b ∈ x, b ≠ quote ∧ b ≠ newline) →
      f (quote :: (x ++ (doubled s ++ quote :: r))) =
        Source.onFirst (quote :: (x ++ (doubled s ++ [quote]))) (f r) by
    rw [constant_append]
    exact h [] nofun
  induction s with
  | nil => exact fun x hx => hf.pair hx r
  | cons b s ih =>
    intro x hx
    have hrest := ih fun h => hs (List.mem_cons_of_mem _ h)
    rw [doubled]
    split
    · -- the first of the two quotes ends a string, and the second begins the next
      have hnext := hrest [] nofun
      simp only [List.nil_append] at hnext
      simp only [List.cons_append]
      rw [hf.pair hx, hnext, Source.onFirst_onFirst]
      simp
    · next hb =>
      have hbreak : b ≠ newline := fun h => hs (h ▸ List.mem_cons_self)
      have hnext := hrest (x ++ [b]) fun c hc => by
        rcases List.mem_append.mp hc with hc | hc
        · exact hx c hc
        · rw [List.mem_singleton.mp hc]
          exact ⟨hb, hbreak⟩
      simpa using hnext

theorem keepsLiterals_partsFrom (depth : Nat) :
    Source.KeepsLiterals (Statement.partsFrom depth) := fun r => by
  rw [Statement.partsFrom, if_pos rfl]

theorem partsFrom_ne_nil (depth : Nat) (t : Text) : Statement.partsFrom depth t ≠ [] := by
  fun_cases Statement.partsFrom depth t <;> simp [Source.onFirst_ne_nil]

/-! ### Texts that readers go over -/

/-- A byte that begins no region, no bracket and no statement. -/
def isPlain (b : UInt8) : Bool :=
  b != quote && b != slash && b != lbrace && b != lparen && b != lbracket && b != rparen &&
    b != rbracket && b != semicolon

theorem regionAt?_plain {b : UInt8} (hb : isPlain b = true) (r : Text) :
    Source.regionAt? (b :: r) = none := by
  simp only [isPlain, Bool.and_eq_true, bne_iff_ne] at hb
  obtain ⟨⟨⟨⟨⟨⟨⟨hquote, hslash⟩, hbrace⟩, hparen⟩, -⟩, -⟩, -⟩, -⟩ := hb
  exact Source.regionAt?_eq_none r hslash hbrace hparen hquote

theorem isPlain_of_isIdentByte {b : UInt8} (h : isIdentByte b = true) : isPlain b = true := by
  have hne {c : UInt8} (hc : isIdentByte c = false) : (b != c) = true :=
    bne_iff_ne.mpr (ne_of_class h hc)
  simp only [isPlain, hne (c := quote) rfl, hne (c := slash) rfl, hne (c := lbrace) rfl,
    hne (c := lparen) rfl, hne (c := lbracket) rfl, hne (c := rparen) rfl, hne (c := rbracket) rfl,
    hne (c := semicolon) rfl, Bool.and_self]

/-- A text of plain bytes and constants. -/
inductive Quiet : Text → Prop
  | nil : Quiet []
  | plain {b : UInt8} {t : Text} : isPlain b = true → Quiet t → Quiet (b :: t)
  | constant {s t : Text} : newline ∉ s → t[0]? ≠ some quote → Quiet t → Quiet (constant s ++ t)

theorem Quiet.append_plain {t u : Text} (ht : ∀ b ∈ t, isPlain b = true) (hu : Quiet u) :
    Quiet (t ++ u) := by
  induction t with
  | nil => exact hu
  | cons b t ih =>
    exact .plain (ht b List.mem_cons_self) (ih fun c hc => ht c (List.mem_cons_of_mem _ hc))

theorem head_ne {b : UInt8} (hb : b ≠ quote) (t : Text) : (b :: t)[0]? ≠ some quote := by
  simpa using hb

/-- What follows a constant decides whether it ends there, also if a text stands between. -/
theorem head_append_ne {t r : Text} (ht : t[0]? ≠ some quote) (hr : r[0]? ≠ some quote) :
    (t ++ r)[0]? ≠ some quote := by
  cases t with
  | nil => exact hr
  | cons b t => exact ht

section
variable {t r : Text} (h : Quiet t) (hr : r[0]? ≠ some quote)
include h hr

/-- **No comment in a quiet text is masked.** -/
theorem clean_quiet : Source.clean (t ++ r) = t ++ Source.clean r := by
  induction h with
  | nil => rfl
  | plain hb _ ih =>
    rw [List.cons_append, Source.clean_code (regionAt?_plain hb _), ih, List.cons_append]
  | constant hs ht _ ih =>
    rw [List.append_assoc, Source.clean_literal (regionAt?_constant hs (head_append_ne ht hr)),
      List.take_left' rfl, List.drop_left' rfl, ih, List.append_assoc]

omit hr in
/-- **No statement ends in a quiet text.** -/
theorem partsFrom_quiet (depth : Nat) :
    Statement.partsFrom depth (t ++ r) = Source.onFirst t (Statement.partsFrom depth r) := by
  induction h with
  | nil => exact (Source.onFirst_nil (partsFrom_ne_nil depth r)).symm
  | plain hb _ ih =>
    simp only [isPlain, Bool.and_eq_true, bne_iff_ne] at hb
    obtain ⟨⟨⟨⟨⟨⟨⟨hquote, -⟩, -⟩, hparen⟩, hbracket⟩, hparen'⟩, hbracket'⟩, hsemicolon⟩ := hb
    rw [List.cons_append, Statement.partsFrom]
    simp only [hquote, hparen, hbracket, hparen', hbracket', hsemicolon, or_self, false_and,
      if_false, ih, Source.onFirst_onFirst, List.singleton_append]
  | constant hs _ _ ih =>
    rw [List.append_assoc, onFirst_constant (keepsLiterals_partsFrom depth) hs, ih,
      Source.onFirst_onFirst]

/-- **No parenthesis is opened or closed in a quiet text.** -/
theorem closing?_quiet (depth : Nat) :
    Source.closing? depth (t ++ r) = (Source.closing? depth r).map (· + t.length) := by
  induction h with
  | nil => simp
  | plain hb _ ih =>
    rw [List.cons_append, Source.closing?, regionAt?_plain hb]
    simp only [isPlain, Bool.and_eq_true, bne_iff_ne] at hb
    obtain ⟨⟨⟨⟨⟨⟨⟨-, -⟩, -⟩, hparen⟩, -⟩, hparen'⟩, -⟩, -⟩ := hb
    simp only [hparen, hparen', if_false, ih, Option.map_map]
    rfl
  | @constant s t hs ht _ ih =>
    rw [List.append_assoc, Source.closing?_region (regionAt?_constant hs (head_append_ne ht hr)),
      List.drop_left' rfl, ih, Option.map_map, List.length_append]
    congr 1
    funext n
    exact (Nat.add_right_comm n _ _).trans (Nat.add_assoc n _ _)

end

/-! ### Sums of strings -/

/-- A sum of strings. -/
def sumOf (ss : List Text) : Text := Text.join (Text.ofString " + ") (ss.map constant)

theorem sumOf_singleton (s : Text) : sumOf [s] = constant s := by
  simp [sumOf, Text.join]

theorem sumOf_cons (s : Text) {ss : List Text} (h : ss ≠ []) :
    sumOf (s :: ss) = constant s ++ space :: plus :: space :: sumOf ss := by
  obtain ⟨s', ss, rfl⟩ := List.exists_cons_of_ne_nil h
  rw [sumOf, List.map_cons, List.map_cons, Text.join, List.intercalate_cons_cons,
    List.append_assoc]
  rfl

/-- A sum begins with the quote of its first constant and ends with that of its last one. -/
theorem sumOf_ends {ss : List Text} (h : ss ≠ []) :
    (∃ m, sumOf ss = quote :: m) ∧ ∃ m, sumOf ss = m ++ [quote] := by
  induction ss with
  | nil => exact absurd rfl h
  | cons s ss ih =>
    cases ss with
    | nil =>
      rw [sumOf_singleton]
      exact ⟨⟨_, rfl⟩, _, constant_eq_concat s⟩
    | cons s' ss =>
      obtain ⟨-, m, hm⟩ := ih (List.cons_ne_nil s' ss)
      rw [sumOf_cons s (List.cons_ne_nil s' ss), hm]
      exact ⟨⟨_, rfl⟩, constant s ++ space :: plus :: space :: m, by simp⟩

theorem quiet_sumOf {ss : List Text} (hss : ∀ s ∈ ss, newline ∉ s) : Quiet (sumOf ss) := by
  induction ss with
  | nil => exact .nil
  | cons s ss ih =>
    have hs := hss s List.mem_cons_self
    have hrest := ih fun s' hs' => hss s' (List.mem_cons_of_mem _ hs')
    cases ss with
    | nil =>
      rw [sumOf_singleton, ← List.append_nil (constant s)]
      exact .constant hs (by simp) .nil
    | cons s' ss =>
      rw [sumOf_cons s (List.cons_ne_nil s' ss)]
      exact .constant hs (head_ne (by decide) _) (.plain rfl (.plain rfl (.plain rfl hrest)))

theorem trim_sumOf {ss : List Text} (h : ss ≠ []) : Text.trim (sumOf ss) = sumOf ss := by
  obtain ⟨⟨m, hm⟩, m', hm'⟩ := sumOf_ends h
  rw [Text.trim, hm, Text.trimStart_ink (by decide) (by decide), ← hm, hm',
    Text.trimEnd_ink (by decide) (by decide)]

theorem trim_space (t : Text) : Text.trim (space :: t) = Text.trim t := by
  rw [Text.trim, Text.trimStart_blank (by decide) (by decide), Text.trim]

/-- The spaces around a plus sign are trimmed off the pieces on both sides. -/
theorem trim_onFirst_space {ps : List Text} (h : ps ≠ []) :
    (Source.onFirst [space] ps).map Text.trim = ps.map Text.trim := by
  obtain ⟨p, ps, rfl⟩ := List.exists_cons_of_ne_nil h
  exact congrArg (· :: ps.map Text.trim) (trim_space p)

theorem trim_constant_space (s : Text) : Text.trim (constant s ++ [space]) = constant s := by
  rw [Text.trim, constant_append, Text.trimStart_ink (by decide) (by decide), ← constant_append,
    Text.trimEnd_blank (by decide) (by decide), constant_eq_concat,
    Text.trimEnd_ink (by decide) (by decide)]

/-- **A sum is cut into its constants.** -/
theorem trim_splitConcatenation {ss : List Text} (h : ss ≠ []) (hss : ∀ s ∈ ss, newline ∉ s) :
    (splitConcatenation (sumOf ss)).map Text.trim = ss.map constant := by
  unfold splitConcatenation Source.splitTopLevel
  -- a constant goes to the first piece
  have hconstant := @onFirst_constant _ (Source.keepsLiterals_splitTopLevelFrom 0 plus)
  have hspace (r : Text) : Source.splitTopLevelFrom 0 plus (space :: r) =
      Source.onFirst [space] (Source.splitTopLevelFrom 0 plus r) := by
    rw [Source.splitTopLevelFrom, if_neg (by decide), if_neg (by decide), if_neg (by decide),
      if_neg (by decide)]
  have hplus (r : Text) : Source.splitTopLevelFrom 0 plus (plus :: r) =
      [] :: Source.splitTopLevelFrom 0 plus r := by
    rw [Source.splitTopLevelFrom, if_neg (by decide), if_neg (by decide), if_neg (by decide),
      if_pos (by decide)]
  induction ss with
  | nil => exact absurd rfl h
  | cons s ss ih =>
    have hs := hss s List.mem_cons_self
    cases ss with
    | nil =>
      rw [sumOf_singleton, ← List.append_nil (constant s), hconstant hs, Source.splitTopLevelFrom]
      have htrim := trim_sumOf (List.cons_ne_nil s [])
      rw [sumOf_singleton] at htrim
      simp [Source.onFirst, htrim]
    | cons s' ss =>
      have hrest := ih (List.cons_ne_nil s' ss) fun s'' hs'' => hss s'' (List.mem_cons_of_mem _ hs'')
      rw [sumOf_cons s (List.cons_ne_nil s' ss), hconstant hs, hspace,
        hplus, hspace, List.map_cons, ← hrest, ← trim_onFirst_space (Source.splitTopLevelFrom_ne_nil _ _ _)]
      simp [Source.onFirst, trim_constant_space]

theorem isFormatCall_sumOf {ss : List Text} (h : ss ≠ []) : isFormatCall (sumOf ss) = false := by
  obtain ⟨⟨m, hm⟩, -⟩ := sumOf_ends h
  have hmatch : Text.matchFold? (Text.ofString "format") (quote :: m) = none := rfl
  rw [hm, isFormatCall, hmatch]

theorem resolve_space (t : Text) : resolve (space :: t) = resolve t := by
  rw [resolve, trim_space, resolve]

/-- **Main.**  A sum of strings is read back as the strings, one after another. -/
theorem resolve_sumOf {ss : List Text} (h : ss ≠ []) (hss : ∀ s ∈ ss, newline ∉ s) :
    resolve (sumOf ss) = ⟨ss.flatten, false, false⟩ := by
  have hterms : terms (sumOf ss) = ss.map Term.literal := by
    have hsplit : terms (sumOf ss) =
        ((splitConcatenation (sumOf ss)).map Text.trim).map Term.ofText := by
      rw [terms, List.map_map]
      rfl
    rw [hsplit, trim_splitConcatenation h hss, List.map_map]
    refine List.map_congr_left ?_
    intro s hs
    rw [Function.comp_apply, Term.ofText, parseLiteral?_constant (hss s hs)]
  rw [resolve]
  simp only [trim_sumOf h, isFormatCall_sumOf h, hterms]
  obtain ⟨s, ss, rfl⟩ := List.exists_cons_of_ne_nil h
  simp [Term.isLiteral, Term.render, List.flatMap_map]

end PascalSurvey.Sql
