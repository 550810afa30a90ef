/-
PascalSurvey/Proofs/Sql/Flag.lean

When a query is dynamic, and when it is reported with the marker.

An expression is judged by its terms as they are written: it is a constant if each of them is one
and it is no formatting call (`IsConstant`), and unknown if none is one or it is such a call
(`IsUnknown`).  A sum has at least one term, so no expression is both, though many are neither.
Each field of what an expression writes is one of these conditions, and so is each part of what
several expressions write.

Main results: a query has no flag exactly if all its expressions are constants
(`extractFrom_isDynamic`), and its text is the marker exactly if all of them are unknown or they
are constants that spell it (`extractFrom_isFullyDynamic`).  In the second case a known text is
reported as unknown (`extractFrom_markerText`).  Nothing else spells the marker, since a term that
is no constant leaves a colon or a brace in the text.
-/
import Mathlib.Data.List.Basic
import PascalSurvey.Proofs.Sql.Readings

namespace PascalSurvey.Sql

open Ascii

/-! ### Expressions -/

/-- The terms of an expression, as written. -/
def termTexts (e : Text) : List Text := (splitConcatenation (Text.trim e)).map Text.trim

/-- Every term is a string constant, and the expression is no formatting call. -/
def IsConstant (e : Text) : Prop :=
  isFormatCall (Text.trim e) = false ∧ ∀ t ∈ termTexts e, (parseLiteral? t).isSome = true

/-- No term is a string constant. -/
def IsUnresolved (e : Text) : Prop := ∀ t ∈ termTexts e, parseLiteral? t = none

/-- Nothing is known of what an expression writes. -/
def IsUnknown (e : Text) : Prop := isFormatCall (Text.trim e) = true ∨ IsUnresolved e

/-- The values of the constants among the terms, one after another. -/
def constantText (e : Text) : Text := (termTexts e).flatMap fun t => (parseLiteral? t).getD []

theorem termTexts_ne_nil (e : Text) : termTexts e ≠ [] := by
  intro h
  exact Source.splitTopLevelFrom_ne_nil 0 plus (Text.trim e) (List.map_eq_nil_iff.mp h)

theorem IsConstant.not_isUnknown {e : Text} (h : IsConstant e) : ¬IsUnknown e := by
  rintro (hformat | hnone)
  · rw [h.1] at hformat
    cases hformat
  · obtain ⟨t, ht⟩ := List.exists_mem_of_ne_nil _ (termTexts_ne_nil e)
    have hsome := h.2 t ht
    rw [hnone t ht] at hsome
    cases hsome

/-! ### Terms -/

section
variable {t v : Text}

theorem Term.ofText_eq_literal (h : parseLiteral? t = some v) : Term.ofText t = .literal v := by
  rw [Term.ofText, h]

theorem Term.isLiteral_ofText (t : Text) :
    (Term.ofText t).isLiteral = (parseLiteral? t).isSome := by
  cases h : parseLiteral? t with
  | some v =>
    rw [Term.ofText_eq_literal h]
    rfl
  | none =>
    rw [Term.ofText, h]
    cases Term.placeholderName? t with
    | some name => rfl
    | none => rfl

/-- The bytes that a term leaves in the text when it is no constant. -/
def HasMark (t : Text) : Prop := colon ∈ t ∨ lbrace ∈ t

theorem HasMark.mono {u : Text} (h : HasMark t) (hu : ∀ b ∈ t, b ∈ u) : HasMark u :=
  h.imp (hu colon) (hu lbrace)

theorem hasMark_render_unresolved (source : Text) : HasMark (Term.unresolved source).render :=
  .inr List.mem_cons_self

theorem Term.hasMark_render (h : parseLiteral? t = none) : HasMark (Term.ofText t).render := by
  rw [Term.ofText, h]
  cases Term.placeholderName? t with
  | some name => exact .inl List.mem_cons_self
  | none => exact hasMark_render_unresolved t

end

/-! ### What an expression writes -/

theorem terms_trim (e : Text) : terms (Text.trim e) = (termTexts e).map Term.ofText := by
  rw [terms, termTexts, List.map_map]
  rfl

section
variable {e : Text}

theorem resolve_of_format (h : isFormatCall (Text.trim e) = true) :
    resolve e = ⟨(Term.unresolved (Text.trim e)).render, true, true⟩ := if_pos h

theorem resolve_of_not_format (h : isFormatCall (Text.trim e) = false) :
    resolve e = ⟨(termTexts e).flatMap fun t => (Term.ofText t).render,
      !(termTexts e).all fun t => (parseLiteral? t).isSome,
      !(termTexts e).any fun t => (parseLiteral? t).isSome⟩ := by
  rw [resolve]
  dsimp only
  rw [if_neg (by simp [h]), terms_trim, List.flatMap_map, List.all_map, List.any_map]
  simp only [Function.comp_def, Term.isLiteral_ofText]

theorem isDynamic_resolve_eq_false_iff : (resolve e).isDynamic = false ↔ IsConstant e := by
  cases h : isFormatCall (Text.trim e) with
  | true => simp [resolve_of_format h, IsConstant, h]
  | false => simp [resolve_of_not_format h, IsConstant, h]

theorem fullyDynamic_resolve_iff : (resolve e).fullyDynamic = true ↔ IsUnknown e := by
  cases h : isFormatCall (Text.trim e) with
  | true => simp [resolve_of_format h, IsUnknown, h]
  | false => simp [resolve_of_not_format h, IsUnknown, IsUnresolved, h]

theorem text_resolve (h : IsConstant e) : (resolve e).text = constantText e := by
  rw [resolve_of_not_format h.1, constantText]
  refine List.flatMap_congr fun t ht => ?_
  obtain ⟨v, hv⟩ := Option.isSome_iff_exists.mp (h.2 t ht)
  rw [Term.ofText_eq_literal hv, hv]
  rfl

/-- What is not a constant leaves its mark. -/
theorem hasMark_resolve (h : ¬IsConstant e) : HasMark (resolve e).text := by
  cases hformat : isFormatCall (Text.trim e) with
  | true =>
    rw [resolve_of_format hformat]
    exact hasMark_render_unresolved _
  | false =>
    -- some term is no constant, and the text has it whole
    obtain ⟨t, ht, hnone⟩ : ∃ t ∈ termTexts e, parseLiteral? t = none := by
      by_contra hall
      refine h ⟨hformat, fun t ht => ?_⟩
      cases hvalue : parseLiteral? t with
      | some v => rfl
      | none => exact absurd ⟨t, ht, hvalue⟩ hall
    rw [resolve_of_not_format hformat]
    exact (Term.hasMark_render hnone).mono fun b hb => List.mem_flatMap.mpr ⟨t, ht, hb⟩

end

/-! ### What several expressions write -/

theorem mem_join {sep t : Text} {ts : List Text} {b : UInt8} (hb : b ∈ t) (ht : t ∈ ts) :
    b ∈ Text.join sep ts := by
  induction ts with
  | nil => cases ht
  | cons u ts ih =>
    cases ts with
    | nil =>
      obtain rfl := List.mem_singleton.mp ht
      simpa [Text.join] using hb
    | cons v ts =>
      rw [Text.join, List.intercalate_cons_cons]
      rcases List.mem_cons.mp ht with rfl | ht
      · exact List.mem_append_left _ (List.mem_append_left _ hb)
      · exact List.mem_append_right _ (ih ht)

section
variable {es : List Text}

theorem joinChunks_of_unknown (h : ∀ e ∈ es, IsUnknown e) :
    joinChunks (es.map resolve) = (dynamicSql, true) := by
  refine if_pos (List.all_eq_true.mpr fun r hr => ?_)
  obtain ⟨e, he, rfl⟩ := List.mem_map.mp hr
  exact fullyDynamic_resolve_iff.mpr (h e he)

theorem joinChunks_of_known (h : ¬∀ e ∈ es, IsUnknown e) :
    joinChunks (es.map resolve) =
      (Text.join [space] (es.map fun e => (resolve e).text),
        es.any fun e => (resolve e).isDynamic) := by
  rw [joinChunks, if_neg, List.map_map, List.any_map]
  · rfl
  · intro hall
    refine h fun e he => fullyDynamic_resolve_iff.mp ?_
    exact List.all_eq_true.mp hall _ (List.mem_map_of_mem he)

/-- Constants are known, as there is one. -/
theorem not_unknown_of_constant (hne : es ≠ []) (h : ∀ e ∈ es, IsConstant e) :
    ¬∀ e ∈ es, IsUnknown e := by
  intro hall
  obtain ⟨e, he⟩ := List.exists_mem_of_ne_nil es hne
  exact (h e he).not_isUnknown (hall e he)

theorem joinChunks_of_constant (hne : es ≠ []) (h : ∀ e ∈ es, IsConstant e) :
    joinChunks (es.map resolve) = (Text.join [space] (es.map constantText), false) := by
  rw [joinChunks_of_known (not_unknown_of_constant hne h)]
  refine Prod.ext ?_ (List.any_eq_false.mpr fun e he => ?_)
  · exact congrArg (Text.join [space]) (List.map_congr_left fun e he => text_resolve (h e he))
  · rw [isDynamic_resolve_eq_false_iff.mpr (h e he)]
    exact Bool.false_ne_true

/-- **The flag is that some expression is no constant.** -/
theorem flag_joinChunks_eq_false_iff (hne : es ≠ []) :
    (joinChunks (es.map resolve)).2 = false ↔ ∀ e ∈ es, IsConstant e := by
  constructor
  · intro hflag e he
    by_cases hall : ∀ e ∈ es, IsUnknown e
    · rw [joinChunks_of_unknown hall] at hflag
      cases hflag
    · rw [joinChunks_of_known hall] at hflag
      have := List.any_eq_false.mp hflag e he
      exact isDynamic_resolve_eq_false_iff.mp (Bool.eq_false_iff.mpr this)
  · intro h
    rw [joinChunks_of_constant hne h]

/-- Where something is known and something is not, the text has a mark. -/
theorem hasMark_joinChunks (hknown : ¬∀ e ∈ es, IsUnknown e) (h : ¬∀ e ∈ es, IsConstant e) :
    HasMark (joinChunks (es.map resolve)).1 := by
  obtain ⟨e, he⟩ := not_forall.mp h
  obtain ⟨he, hnot⟩ := Classical.not_imp.mp he
  rw [joinChunks_of_known hknown]
  have hmem : (resolve e).text ∈ es.map fun e => (resolve e).text := List.mem_map_of_mem he
  exact (hasMark_resolve hnot).mono fun b hb => mem_join hb hmem

end

/-! ### The flag -/

/-- The flag of a query is that some of its expressions is no constant.  Without the flag its text
is what the constants say, and it is the marker where no term of any expression is a constant. -/
structure Flagged (es : List Text) (q : Query) : Prop where
  isDynamic_iff : q.isDynamic = false ↔ ∀ e ∈ es, IsConstant e
  sql_eq : q.isDynamic = false → q.sql = Text.join [space] (es.map constantText)
  unresolved : (∀ e ∈ es, IsUnresolved e) → q.isDynamic = true ∧ q.sql = dynamicSql

/-- **Main.**  The flag is exact: the queries of a source text are those of its readings, and each
says of the expressions that it is read from whether they are constants. -/
theorem extractFrom_isDynamic (source : Text) (firstLine : Nat) (method : Text)
    (className : Option Text) :
    ∃ rs, ReadBy source firstLine method className rs ∧
      ∀ r ∈ rs, Flagged r.expressions (r.query source firstLine method className) := by
  obtain ⟨rs, hrs⟩ := exists_readBy source firstLine method className
  refine ⟨rs, hrs, fun r hr => ?_⟩
  have hne := ((hrs.inTurn.mem_iff r).mp hr).2.expressions_ne_nil
  have hflag := flag_joinChunks_eq_false_iff hne
  constructor
  · exact hflag
  · intro hfalse
    show (joinChunks (r.expressions.map resolve)).1 = _
    rw [joinChunks_of_constant hne (hflag.mp hfalse)]
  · intro hnone
    have h := joinChunks_of_unknown fun e he => Or.inr (hnone e he)
    exact ⟨congrArg Prod.snd h, congrArg Prod.fst h⟩

/-! ### The marker -/

/-- Constants that spell the marker. -/
def SpellsMarker (es : List Text) : Prop :=
  (∀ e ∈ es, IsConstant e) ∧ Text.join [space] (es.map constantText) = dynamicSql

/-- A query is reported with the marker if nothing is known of its text, or if its text is known
and spells the marker.  The flag tells the two apart. -/
structure Marked (es : List Text) (q : Query) : Prop where
  isFullyDynamic_iff : q.isFullyDynamic = true ↔ (∀ e ∈ es, IsUnknown e) ∨ SpellsMarker es
  isDynamic_iff : q.isFullyDynamic = true → (q.isDynamic = true ↔ ∀ e ∈ es, IsUnknown e)

theorem not_hasMark_dynamicSql : ¬HasMark dynamicSql := by
  rintro (h | h)
  · revert h
    decide +kernel
  · revert h
    decide +kernel

theorem joinChunks_eq_dynamicSql_iff {es : List Text} (hne : es ≠ []) :
    (joinChunks (es.map resolve)).1 = dynamicSql ↔ (∀ e ∈ es, IsUnknown e) ∨ SpellsMarker es := by
  constructor
  · intro hsql
    by_cases hall : ∀ e ∈ es, IsUnknown e
    · exact .inl hall
    · -- a mark would be in the marker, which has none
      have hconstant : ∀ e ∈ es, IsConstant e := by
        by_contra hnot
        exact not_hasMark_dynamicSql (hsql ▸ hasMark_joinChunks hall hnot)
      rw [joinChunks_of_constant hne hconstant] at hsql
      exact .inr ⟨hconstant, hsql⟩
  · rintro (hall | ⟨hconstant, hsql⟩)
    · rw [joinChunks_of_unknown hall]
    · rw [joinChunks_of_constant hne hconstant]
      exact hsql

/-- **Main.**  The marker stands for a text of which nothing is known, but for one case: constants
that spell it are reported with it too, and without the flag. -/
theorem extractFrom_isFullyDynamic (source : Text) (firstLine : Nat) (method : Text)
    (className : Option Text) :
    ∃ rs, ReadBy source firstLine method className rs ∧
      ∀ r ∈ rs, Marked r.expressions (r.query source firstLine method className) := by
  obtain ⟨rs, hrs⟩ := exists_readBy source firstLine method className
  refine ⟨rs, hrs, fun r hr => ?_⟩
  have hne := ((hrs.inTurn.mem_iff r).mp hr).2.expressions_ne_nil
  have hmarker : (r.query source firstLine method className).isFullyDynamic = true ↔ _ :=
    beq_iff_eq.trans (joinChunks_eq_dynamicSql_iff hne)
  refine ⟨hmarker, fun hfull => ⟨fun hflag => ?_, fun hall => ?_⟩⟩
  · rcases hmarker.mp hfull with hall | ⟨hconstant, -⟩
    · exact hall
    · -- constants that spell the marker have no flag
      have hfalse := (flag_joinChunks_eq_false_iff hne).mpr hconstant
      exact absurd (hflag.symm.trans hfalse) Bool.noConfusion
  · exact congrArg Prod.snd (joinChunks_of_unknown hall)

/-- A text that is known and reads like the marker is reported as unknown, and not as dynamic. -/
theorem extractFrom_markerText :
    (extractFrom (Text.ofString "q.SQL.Text := 'Dynamic SQL';") 1 [] none).map
      (fun q => (q.isFullyDynamic, q.isDynamic)) = [(true, false)] := by
  decide +kernel

end PascalSurvey.Sql
