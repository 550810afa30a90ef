/-
PascalSurvey/Proofs/Source/Removal.lean

Taking comments out of a text.  What stands on the two sides of a comment may join when the
comment is taken out, and then the text is cut differently: a slash and a slash open a comment,
and two literals become one.  A seam is `Apart` if nothing joins there: a blank, a comma, a
semicolon or a comment stands on one side of it.  Then the pieces of the text without the comment
are its pieces without that one (`pieces_remove`), and so step by step (`Removes`) for all comments
of a kind (`removes_filter`).

What carries the proof is that a region is determined by its own bytes and the one behind it
(`regionAt?_behind`).
-/
import Mathlib.Logic.Relation
import PascalSurvey.Proofs.Source.Clean

namespace PascalSurvey.Source

open Ascii

/-! ### Regions and what stands behind them -/

section
variable {u x y : Text}

theorem untilBreak_behind (h : untilBreak (u ++ x) = u.length)
    (hbreak : x[0]? = some newline → y[0]? = some newline) (hend : x = [] → y = []) :
    untilBreak (u ++ y) = u.length := by
  induction u with
  | nil =>
    cases x with
    | nil => rw [hend rfl]; rfl
    | cons a x =>
      by_cases ha : a = newline
      · subst ha
        obtain ⟨y, rfl⟩ := Text.cons_of_getElem?_zero (hbreak rfl)
        rfl
      · rw [List.nil_append, untilBreak] at h
        · simp at h
        · exact ha
  | cons a u ih =>
    by_cases ha : a = newline
    · -- no line break stands in front of the end
      subst ha
      exact absurd h.symm (Nat.succ_ne_zero _)
    · rw [List.cons_append, untilBreak] at h ⊢
      · rw [ih (by simp only [List.length_cons] at h; omega), List.length_cons, Nat.add_comm]
      · exact ha
      · exact ha

theorem throughBrace_behind (h : throughBrace (u ++ x) = u.length) (hx : x ≠ []) :
    throughBrace (u ++ y) = u.length := by
  induction u with
  | nil =>
    obtain ⟨a, x, rfl⟩ := List.exists_cons_of_ne_nil hx
    unfold throughBrace at h
    split at h <;> simp_all
  | cons a u ih =>
    by_cases ha : a = rbrace
    · subst ha
      exact h
    · rw [List.cons_append, throughBrace] at h ⊢
      · rw [ih (by simp only [List.length_cons] at h; omega), List.length_cons, Nat.add_comm]
      · exact ha
      · exact ha

theorem throughStar_pos {t : Text} (ht : t ≠ []) : 0 < throughStar t := by
  obtain ⟨a, t, rfl⟩ := List.exists_cons_of_ne_nil ht
  unfold throughStar
  split
  · simp_all
  · omega
  · omega

theorem throughStar_behind (h : throughStar (u ++ x) = u.length) (hx : x ≠ []) :
    throughStar (u ++ y) = u.length := by
  induction u with
  | nil =>
    have := throughStar_pos hx
    rw [List.nil_append] at h
    simp only [List.length_nil] at h
    omega
  | cons a u ih =>
    by_cases hclose : a = asterisk ∧ u[0]? = some rparen
    · obtain ⟨rfl, hu⟩ := hclose
      obtain ⟨u, rfl⟩ := Text.cons_of_getElem?_zero hu
      exact h
    · -- the byte behind `a` is in `u`, for a comment takes all that is left of it
      cases u with
      | nil =>
        by_cases hpair : a = asterisk ∧ x[0]? = some rparen
        · obtain ⟨rfl, hx'⟩ := hpair
          obtain ⟨x, rfl⟩ := Text.cons_of_getElem?_zero hx'
          exact absurd h (show (2 : Nat) ≠ 1 by decide)
        · have := throughStar_pos hx
          rw [List.cons_append, List.nil_append, throughStar] at h
          · simp only [List.length_cons, List.length_nil] at h
            omega
          · rintro r rfl rfl
            exact hpair ⟨rfl, rfl⟩
      | cons b u =>
        have hne : ∀ {z r : Text}, a = asterisk → b :: u ++ z = rparen :: r → False := by
          intro z r ha hz
          rw [List.cons_append] at hz
          exact hclose ⟨ha, congrArg some (List.cons.inj hz).1⟩
        rw [List.cons_append, throughStar] at h ⊢
        · rw [ih (by simp only [List.length_cons] at h ⊢; omega)]
          simp only [List.length_cons]
          omega
        · exact fun r => hne
        · exact fun r => hne

theorem literalTail_behind (h : literalTail (u ++ x) = u.length) (hx : x ≠ [])
    (hquote : y[0]? ≠ some quote) (hbreak : x[0]? = some newline → y[0]? = some newline) :
    literalTail (u ++ y) = u.length := by
  have := literalTail_take_append (r := u ++ x) (u := y) hquote
    (by
      rw [h, List.drop_left]
      intro hnone
      rw [← List.head?_eq_getElem?, List.head?_eq_none_iff] at hnone
      exact absurd hnone hx)
    (by rwa [h, List.drop_left])
  rwa [h, List.take_left] at this

theorem exists_cons_cons {u : Text} (h : 2 ≤ u.length) : ∃ a b v, u = a :: b :: v := by
  obtain ⟨a, u, rfl⟩ := List.exists_cons_of_length_pos (by omega : 0 < u.length)
  obtain ⟨b, v, rfl⟩ := List.exists_cons_of_length_pos (Nat.le_of_succ_le_succ h : 0 < u.length)
  exact ⟨a, b, v, rfl⟩

/-- A region with something behind it is the same whatever stands there, if no quote goes on with
a literal and a line break still ends what it ended. -/
theorem regionAt?_behind {kind : Region} (h : regionAt? (u ++ x) = some (kind, u.length))
    (hx : x ≠ []) (hquote : kind = .literal → y[0]? ≠ some quote)
    (hbreak : x[0]? = some newline → y[0]? = some newline) :
    regionAt? (u ++ y) = some (kind, u.length) := by
  generalize ht : u ++ x = t at h
  generalize hn : u.length = n at h
  cases opens_of_regionAt? h with
  | line r =>
    obtain ⟨a, b, u, rfl⟩ := exists_cons_cons (by omega : 2 ≤ u.length)
    simp only [List.cons_append, List.cons.injEq] at ht
    obtain ⟨rfl, rfl, rfl⟩ := ht
    simp only [List.length_cons] at hn
    show some (Region.lineComment, 2 + untilBreak (u ++ y)) = _
    rw [untilBreak_behind (by omega) hbreak fun h => absurd h hx]
    congr 2
    omega
  | brace r =>
    obtain ⟨a, u, rfl⟩ := List.exists_cons_of_length_pos (by omega : 0 < u.length)
    simp only [List.cons_append, List.cons.injEq] at ht
    obtain ⟨rfl, rfl⟩ := ht
    simp only [List.length_cons] at hn
    show some (Region.braceComment, 1 + throughBrace (u ++ y)) = _
    rw [throughBrace_behind (by omega) hx]
    congr 2
    omega
  | star r =>
    obtain ⟨a, b, u, rfl⟩ := exists_cons_cons (by omega : 2 ≤ u.length)
    simp only [List.cons_append, List.cons.injEq] at ht
    obtain ⟨rfl, rfl, rfl⟩ := ht
    simp only [List.length_cons] at hn
    show some (Region.starComment, 2 + throughStar (u ++ y)) = _
    rw [throughStar_behind (by omega) hx]
    congr 2
    omega
  | literal r =>
    obtain ⟨a, u, rfl⟩ := List.exists_cons_of_length_pos (by omega : 0 < u.length)
    simp only [List.cons_append, List.cons.injEq] at ht
    obtain ⟨rfl, rfl⟩ := ht
    simp only [List.length_cons] at hn
    show some (Region.literal, 1 + literalTail (u ++ y)) = _
    rw [literalTail_behind (by omega) hx (hquote rfl) hbreak]
    congr 2
    omega

/-- A byte that begins no region begins none with another byte behind it either, if the two do
not open a comment. -/
theorem regionAt?_code_behind {b : UInt8} (h : regionAt? (b :: x) = none)
    (hslash : b = slash → y[0]? ≠ some slash) (hstar : b = lparen → y[0]? ≠ some asterisk) :
    regionAt? (b :: y) = none := by
  rcases hr : regionAt? (b :: y) with - | ⟨kind, n⟩
  · rfl
  · generalize hm : b :: y = m at hr
    cases opens_of_regionAt? hr with
    | line r =>
      obtain ⟨rfl, rfl⟩ := List.cons.inj hm
      exact absurd rfl (hslash rfl)
    | star r =>
      obtain ⟨rfl, rfl⟩ := List.cons.inj hm
      exact absurd rfl (hstar rfl)
    | brace r | literal r =>
      obtain ⟨rfl, -⟩ := List.cons.inj hm
      cases h

/-- No quote stands behind a literal. -/
theorem head_behind_literal (h : regionAt? (u ++ x) = some (.literal, u.length)) :
    x[0]? ≠ some quote := by
  generalize ht : u ++ x = t at h
  generalize hn : u.length = n at h
  cases opens_of_regionAt? h with
  | literal r =>
    obtain ⟨a, u, rfl⟩ := List.exists_cons_of_length_pos (by omega : 0 < u.length)
    simp only [List.cons_append, List.cons.injEq] at ht
    obtain ⟨rfl, rfl⟩ := ht
    simp only [List.length_cons] at hn
    have := literalTail_next (u ++ x)
    rwa [show literalTail (u ++ x) = u.length by omega, List.getElem?_append_right (Nat.le_refl _),
      Nat.sub_self] at this

end

/-! ### Pieces one behind the other -/

section
variable {t : Text} {p : Piece} {ps us vs : List Piece} {kind : Region} {s : Text}

/-- The bytes of a list of pieces. -/
abbrev textOf (ps : List Piece) : Text := ps.flatMap Piece.text

theorem pieces_cons_region {r : Text} (h : regionAt? (s ++ r) = some (kind, s.length)) :
    pieces (s ++ r) = .region kind s :: pieces r := by
  rw [pieces_region h, List.take_left, List.drop_left]

/-- The first piece of a text, and the rest of them, which are the pieces of the rest. -/
theorem pieces_eq_cons (h : pieces t = p :: ps) :
    t = p.text ++ textOf ps ∧ pieces (textOf ps) = ps ∧
      ((∃ b, p = .code b ∧ regionAt? t = none) ∨
        ∃ kind s, p = .region kind s ∧ regionAt? t = some (kind, s.length)) := by
  have htext : t = p.text ++ textOf ps := by
    rw [← flatMap_text_pieces t, h, List.flatMap_cons]
  refine ⟨htext, ?_⟩
  cases t with
  | nil =>
    rw [pieces_nil] at h
    cases h
  | cons b r =>
    rcases hr : regionAt? (b :: r) with - | ⟨kind, n⟩
    · rw [pieces_code hr] at h
      obtain ⟨rfl, rfl⟩ := List.cons.inj h
      exact ⟨by rw [textOf, flatMap_text_pieces], .inl ⟨b, rfl, rfl⟩⟩
    · rw [pieces_region hr] at h
      obtain ⟨rfl, rfl⟩ := List.cons.inj h
      refine ⟨by rw [textOf, flatMap_text_pieces], .inr ⟨kind, _, rfl, ?_⟩⟩
      rw [List.length_take, Nat.min_eq_left (regionAt?_bounds hr).2]

/-- When a piece is the first one of a text. -/
theorem pieces_eq_cons_iff {x : Text} : pieces (p.text ++ x) = p :: pieces x ↔
    (∃ b, p = .code b ∧ regionAt? (b :: x) = none) ∨
      ∃ kind s, p = .region kind s ∧ regionAt? (s ++ x) = some (kind, s.length) := by
  constructor
  · intro h
    obtain ⟨-, -, ⟨b, rfl, hr⟩ | ⟨kind, s, rfl, hr⟩⟩ := pieces_eq_cons h
    · exact .inl ⟨b, rfl, hr⟩
    · exact .inr ⟨kind, s, rfl, hr⟩
  · rintro (⟨b, rfl, hr⟩ | ⟨kind, s, rfl, hr⟩)
    · exact pieces_code hr
    · exact pieces_cons_region hr

/-- A piece in front of a text is the first one of every text that begins as that does. -/
theorem pieces_cons_congr {x y : Text} (h : pieces (p.text ++ x) = p :: pieces x) (hx : x ≠ [])
    (hy : y[0]? = x[0]?) : pieces (p.text ++ y) = p :: pieces y := by
  rcases pieces_eq_cons_iff.mp h with ⟨b, rfl, hnone⟩ | ⟨kind, s, rfl, hregion⟩
  · refine pieces_eq_cons_iff.mpr (.inl ⟨b, rfl, ?_⟩)
    refine regionAt?_code_behind hnone (fun hb hslash => ?_) (fun hb hstar => ?_)
    · rw [hy] at hslash
      obtain ⟨r, hr⟩ := Text.cons_of_getElem?_zero hslash
      rw [hb, hr] at hnone
      cases hnone
    · rw [hy] at hstar
      obtain ⟨r, hr⟩ := Text.cons_of_getElem?_zero hstar
      rw [hb, hr] at hnone
      cases hnone
  · refine pieces_eq_cons_iff.mpr (.inr ⟨kind, s, rfl, ?_⟩)
    refine regionAt?_behind hregion hx (fun hlit => ?_) (fun hbreak => hy.trans hbreak)
    subst hlit
    rw [hy]
    exact head_behind_literal hregion

theorem getElem?_textOf_cons (h : pieces (textOf (p :: ps)) = p :: ps) (qs : List Piece) :
    (textOf (p :: qs))[0]? = (textOf (p :: ps))[0]? := by
  have hpos : 0 < p.text.length := by
    obtain ⟨htext, -, ⟨b, rfl, -⟩ | ⟨kind, s, rfl, hr⟩⟩ := pieces_eq_cons h
    · exact Nat.one_pos
    · exact (regionAt?_bounds hr).1
  rw [textOf, textOf, List.flatMap_cons, List.flatMap_cons, List.getElem?_append_left hpos,
    List.getElem?_append_left hpos]

/-- A comment begins with a byte that is neither a quote nor a star nor a line break. -/
theorem comment_head (h : regionAt? t = some (kind, s.length)) (hk : kind ≠ .literal) :
    ∃ b, t[0]? = some b ∧ b ≠ quote ∧ b ≠ asterisk ∧ b ≠ newline := by
  generalize s.length = n at h
  cases opens_of_regionAt? h with
  | line r | brace r | star r => exact ⟨_, rfl, by decide, by decide, by decide⟩
  | literal r => exact absurd rfl hk

end

/-! ### Seams -/

/-- A piece with which nothing joins: a blank, a comma, a semicolon or a comment. -/
def Piece.isGap : Piece → Bool
  | .code b => isBlank b || b == comma || b == semicolon
  | .region kind _ => kind != .literal

/-- Nothing joins at the seam between two pieces, either of which may be missing: one of them is a
gap.  A slash can open a comment with what stands behind it, so behind one there is no such
seam. -/
def Apart (before behind : Option Piece) : Prop :=
  before.all Piece.isGap = true ∨ behind.all Piece.isGap = true ∧ before ≠ some (.code slash)

instance (before behind : Option Piece) : Decidable (Apart before behind) :=
  inferInstanceAs (Decidable (_ ∨ _ ∧ _))

theorem isGap_code {b : UInt8} (h : (Piece.code b).isGap = true) :
    isBlank b = true ∨ b = comma ∨ b = semicolon := by
  simpa [Piece.isGap, or_assoc] using h

theorem ne_of_isGap_code {b c : UInt8} (h : (Piece.code b).isGap = true)
    (hc : (isBlank c || c == comma || c == semicolon) = false) : b ≠ c := by
  rintro rfl
  rw [Piece.isGap, hc] at h
  cases h

section
variable {us vs : List Piece} {kind : Region} {s : Text}

/-- A gap begins with no quote and no star. -/
theorem head_of_isGap (h : pieces (textOf vs) = vs) (hgap : vs.head?.all Piece.isGap = true)
    {b : UInt8} (hb : (textOf vs)[0]? = some b) : b ≠ quote ∧ b ≠ asterisk := by
  cases vs with
  | nil => cases hb
  | cons p ps =>
    rw [List.head?_cons, Option.all_some] at hgap
    obtain ⟨-, -, ⟨a, rfl, -⟩ | ⟨kind, s, rfl, hr⟩⟩ := pieces_eq_cons h
    · obtain rfl : a = b := Option.some.inj hb
      exact ⟨ne_of_isGap_code hgap (by decide), ne_of_isGap_code hgap (by decide)⟩
    · obtain ⟨c, hc, hquote, hstar, -⟩ := comment_head hr (by simpa [Piece.isGap] using hgap)
      rw [hb] at hc
      obtain rfl := Option.some.inj hc
      exact ⟨hquote, hstar⟩

/-- A piece in front of a text is the first one in front of other pieces with which it does not
join. -/
theorem pieces_cons_of_apart {p : Piece} {x : Text} (h : pieces (p.text ++ x) = p :: pieces x)
    (hx : x ≠ []) (hbreak : x[0]? ≠ some newline) (hvs : pieces (textOf vs) = vs)
    (hapart : Apart (some p) vs.head?) :
    pieces (p.text ++ textOf vs) = p :: pieces (textOf vs) := by
  rcases pieces_eq_cons_iff.mp h with ⟨b, rfl, hnone⟩ | ⟨kind, s, rfl, hregion⟩
  · refine pieces_eq_cons_iff.mpr (.inl ⟨b, rfl, ?_⟩)
    rcases hapart with hgap | ⟨hgap, hslash⟩
    · rw [Option.all_some] at hgap
      exact regionAt?_eq_none _ (ne_of_isGap_code hgap (by decide))
        (ne_of_isGap_code hgap (by decide)) (ne_of_isGap_code hgap (by decide))
        (ne_of_isGap_code hgap (by decide))
    · refine regionAt?_code_behind hnone (fun hb => ?_) (fun _ hstar => ?_)
      · rw [hb] at hslash
        exact absurd rfl hslash
      · exact absurd rfl (head_of_isGap hvs hgap hstar).2
  · refine pieces_eq_cons_iff.mpr (.inr ⟨kind, s, rfl, ?_⟩)
    refine regionAt?_behind hregion hx (fun hlit hquote => ?_) (fun h => absurd h hbreak)
    subst hlit
    rcases hapart with hgap | ⟨hgap, -⟩
    · simp [Piece.isGap] at hgap
    · exact absurd rfl (head_of_isGap hvs hgap hquote).1

/-- **A comment can be taken out where nothing joins.** -/
theorem pieces_remove (h : pieces (textOf (us ++ .region kind s :: vs)) = us ++ .region kind s :: vs)
    (hk : kind ≠ .literal) (hapart : Apart us.getLast? vs.head?) :
    pieces (textOf (us ++ vs)) = us ++ vs := by
  induction us with
  | nil => exact (pieces_eq_cons h).2.1
  | cons p us ih =>
    rw [List.cons_append] at h
    obtain ⟨-, hrest, -⟩ := pieces_eq_cons h
    have hcut : pieces (p.text ++ textOf (us ++ .region kind s :: vs)) =
        p :: pieces (textOf (us ++ .region kind s :: vs)) := by
      rw [hrest]
      exact h
    have hne : textOf (us ++ .region kind s :: vs) ≠ [] := by
      intro hnil
      rw [hnil, pieces_nil] at hrest
      simp at hrest
    suffices hsame : pieces (textOf (us ++ vs)) = us ++ vs ∧
        pieces (p.text ++ textOf (us ++ vs)) = p :: pieces (textOf (us ++ vs)) by
      rw [List.cons_append, textOf, List.flatMap_cons, hsame.2, hsame.1]
    cases us with
    | nil =>
      -- the seam is right behind the piece
      have hvs := ih hrest (.inl rfl)
      obtain ⟨-, -, ⟨b, hcode, -⟩ | ⟨kind', s', hcomment, hr⟩⟩ := pieces_eq_cons hrest
      · cases hcode
      · cases hcomment
        obtain ⟨c, hc, -, -, hbreak⟩ := comment_head hr hk
        refine ⟨hvs, pieces_cons_of_apart hcut hne (fun h => hbreak ?_) hvs hapart⟩
        exact Option.some.inj (hc.symm.trans h)
    | cons q us =>
      -- the piece is followed by the same byte as before
      exact ⟨ih hrest (by simpa using hapart),
        pieces_cons_congr hcut hne (getElem?_textOf_cons hrest _)⟩

end

/-! ### Taking out comments one by one -/

/-- One comment is taken out where nothing joins. -/
inductive Removes : List Piece → List Piece → Prop
  | comment {us vs : List Piece} {kind : Region} {s : Text} (hk : kind ≠ .literal)
      (hapart : Apart us.getLast? vs.head?) : Removes (us ++ .region kind s :: vs) (us ++ vs)

/-- What is left is cut where it was cut. -/
theorem Removes.pieces_eq {ps qs : List Piece} (h : Removes ps qs) (hps : pieces (textOf ps) = ps) :
    pieces (textOf qs) = qs := by
  cases h with
  | comment hk hapart => exact pieces_remove hps hk hapart

theorem Removes.mem {ps qs : List Piece} (h : Removes ps qs) {p : Piece} (hp : p ∈ qs) : p ∈ ps := by
  cases h with
  | comment =>
    rcases List.mem_append.mp hp with hp | hp
    · exact List.mem_append_left _ hp
    · exact List.mem_append_right _ (List.mem_cons_of_mem _ hp)

/-- The comments that `keep` leaves out can be taken out, the last one first, if nothing joins where
one of them stands with the ones behind it taken out. -/
theorem removes_filter {keep : Piece → Bool} {us vs : List Piece}
    (hkind : ∀ p ∈ vs, keep p = false → ∃ kind s, p = .region kind s ∧ kind ≠ .literal)
    (hapart : ∀ xs c ys, vs = xs ++ c :: ys → keep c = false →
      Apart (us ++ xs).getLast? (ys.filter keep).head?) :
    Relation.ReflTransGen Removes (us ++ vs) (us ++ vs.filter keep) := by
  induction vs generalizing us with
  | nil => exact .refl
  | cons c vs ih =>
    have hrest : Relation.ReflTransGen Removes (us ++ c :: vs) (us ++ c :: vs.filter keep) := by
      have := @ih (us ++ [c]) (fun p hp => hkind p (List.mem_cons_of_mem _ hp))
        (fun xs d ys hvs hd => by
          have := hapart (c :: xs) d ys (by rw [hvs, List.cons_append]) hd
          rwa [List.append_assoc, List.singleton_append])
      simpa using this
    cases hc : keep c with
    | true => rwa [List.filter_cons_of_pos hc]
    | false =>
      rw [List.filter_cons_of_neg (by simp [hc])]
      obtain ⟨kind, s, rfl, hk⟩ := hkind c List.mem_cons_self hc
      have hseam := hapart [] (.region kind s) vs rfl hc
      rw [List.append_nil] at hseam
      exact hrest.tail (.comment hk hseam)

end PascalSurvey.Source
