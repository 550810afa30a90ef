/-
PascalSurvey/Proofs/Source/Split.lean

Splitting a text that is put together of two.  A text whose quotes are all closed (`QuotesClosed`)
is split as it would be on its own, and its last item goes on with the first one behind it
(`exists_lastItem`).  It does not matter what stands behind it: where a quote follows,
two literals become one, but the quotes between which a separator stands are the same.  That holds
of every way of splitting that goes over literals as wholes (`KeepsLiterals.pair`).

A literal of a source text has closed quotes if it has an even number of them
(`quotesClosed_literal`).
-/
import PascalSurvey.Proofs.Source.Clean
import PascalSurvey.Source.Split

namespace PascalSurvey.Source

open Ascii

/-- The quotes of a text are closed, two by two, each on its line. -/
inductive QuotesClosed : Text → Prop
  | nil : QuotesClosed []
  | plain {b : UInt8} {r : Text} (hb : b ≠ quote) : QuotesClosed r → QuotesClosed (b :: r)
  | pair {x r : Text} (hx : ∀ b ∈ x, b ≠ quote ∧ b ≠ newline) :
      QuotesClosed r → QuotesClosed (quote :: (x ++ quote :: r))

namespace QuotesClosed

theorem append {x y : Text} (hx : QuotesClosed x) (hy : QuotesClosed y) : QuotesClosed (x ++ y) := by
  induction hx with
  | nil => exact hy
  | plain hb _ ih => exact .plain hb ih
  | pair hx _ ih =>
    rw [List.cons_append, List.append_assoc, List.cons_append]
    exact .pair hx ih

theorem of_not_mem {x : Text} (hx : quote ∉ x) : QuotesClosed x := by
  induction x with
  | nil => exact .nil
  | cons b x ih =>
    rw [List.mem_cons, not_or] at hx
    exact .plain (Ne.symm hx.1) (ih hx.2)

theorem flatMap {α : Type} {f : α → Text} {l : List α} (h : ∀ a ∈ l, QuotesClosed (f a)) :
    QuotesClosed (l.flatMap f) := by
  induction l with
  | nil => exact .nil
  | cons a l ih =>
    rw [List.flatMap_cons]
    exact (h a List.mem_cons_self).append (ih fun b hb => h b (List.mem_cons_of_mem _ hb))

end QuotesClosed

/-! ### Literals -/

/-- Behind the opening quote of a closed literal a first part ends with a quote, and the quotes
behind that are closed. -/
theorem exists_closing (r : Text) (h : (r.take (literalTail r)).count quote % 2 = 1) :
    ∃ x m, r.take (literalTail r) = x ++ quote :: m ∧ (∀ b ∈ x, b ≠ quote ∧ b ≠ newline) ∧
      QuotesClosed m := by
  fun_induction literalTail r with
  | case1 => cases h
  | case2 r ih =>
    -- two quotes: one closes a part, and the other one opens the next
    replace h : (quote :: quote :: r.take (literalTail r)).count quote % 2 = 1 := by
      rwa [Nat.add_comm 2] at h
    rw [List.count_cons_self, List.count_cons_self] at h
    obtain ⟨x, m, hxm, hx, hm⟩ := ih (by omega)
    rw [Nat.add_comm 2, List.take_succ_cons, List.take_succ_cons, hxm]
    exact ⟨[], quote :: (x ++ quote :: m), rfl, by simp, .pair hx hm⟩
  | case3 r => exact ⟨[], [], by simp, by simp, .nil⟩
  | case4 r => cases h
  | case5 b r _ hquote hbreak ih =>
    have hb : b ≠ quote ∧ b ≠ newline := ⟨fun h => hquote h, fun h => hbreak h⟩
    rw [Nat.add_comm 1, List.take_succ_cons, List.count_cons_of_ne hb.1] at h
    obtain ⟨x, m, hxm, hx, hm⟩ := ih h
    rw [Nat.add_comm 1, List.take_succ_cons, hxm]
    exact ⟨b :: x, m, rfl, by simpa using ⟨hb, hx⟩, hm⟩

theorem quotesClosed_literal {t : Text} {n : Nat} (h : regionAt? t = some (.literal, n))
    (heven : (t.take n).count quote % 2 = 0) : QuotesClosed (t.take n) := by
  cases opens_of_regionAt? h with
  | literal r =>
    rw [Nat.add_comm 1, List.take_succ_cons] at heven ⊢
    rw [List.count_cons_self] at heven
    obtain ⟨x, m, hxm, hx, hm⟩ := exists_closing r (by omega)
    rw [hxm]
    exact .pair hx hm

/-- A piece is a byte that begins no region, or a region at the head of a text. -/
theorem mem_pieces {p : Piece} {t : Text} (h : p ∈ pieces t) :
    (∃ b r, p = .code b ∧ regionAt? (b :: r) = none) ∨
      ∃ kind u n, p = .region kind (u.take n) ∧ regionAt? u = some (kind, n) := by
  induction t using piecewise with
  | nil =>
    rw [pieces] at h
    cases h
  | code b r hr ih =>
    rw [pieces_code hr] at h
    rcases List.mem_cons.mp h with rfl | h
    · exact .inl ⟨b, r, rfl, hr⟩
    · exact ih h
  | region t kind n hr ih =>
    rw [pieces_region hr] at h
    rcases List.mem_cons.mp h with rfl | h
    · exact .inr ⟨kind, t, n, rfl, hr⟩
    · exact ih h

theorem text_ne_nil_of_mem_pieces {p : Piece} {t : Text} (h : p ∈ pieces t) : p.text ≠ [] := by
  rcases mem_pieces h with ⟨b, r, rfl, -⟩ | ⟨kind, u, n, rfl, hr⟩
  · exact List.cons_ne_nil b []
  · have hpos := (regionAt?_bounds hr).1
    have hle := (regionAt?_bounds hr).2
    rw [Piece.text_region, ← List.length_pos_iff, List.length_take]
    omega

/-- Whether a piece has no literal that is left open. -/
def Piece.isClosed : Piece → Bool
  | .region .literal s => s.count quote % 2 == 0
  | _ => true

/-- In a text without comments the quotes of a closed piece are closed. -/
theorem quotesClosed_masked {p : Piece} {t : Text} (hp : p ∈ pieces t) (h : p.isClosed = true) :
    QuotesClosed (p.masked .comments) := by
  rcases mem_pieces hp with ⟨b, r, rfl, hr⟩ | ⟨kind, u, n, rfl, hr⟩
  · refine .plain ?_ .nil
    rintro rfl
    cases hr
  · cases kind with
    | literal => exact quotesClosed_literal hr (by simpa [Piece.isClosed] using h)
    | lineComment | braceComment | starComment =>
      refine .of_not_mem fun hmem => ?_
      rcases isBlank_of_mem_blanked hmem with h | h | h <;> cases h

/-! ### Splitting -/

variable {sep : UInt8} (hsep : sep ≠ quote)

theorem literalTail_pair {x : Text} (hx : ∀ b ∈ x, b ≠ quote ∧ b ≠ newline) (r : Text) :
    literalTail (x ++ quote :: r) =
      x.length + 1 + if r.head? = some quote then 1 + literalTail r.tail else 0 := by
  induction x with
  | nil =>
    rw [List.nil_append]
    by_cases hr : r.head? = some quote
    · obtain ⟨r, rfl⟩ := List.head?_eq_some_iff.mp hr
      show 2 + literalTail r = _
      rw [if_pos hr, List.tail_cons, List.length_nil]
      omega
    · rw [List.head?_eq_getElem?] at hr
      rw [literalTail_close hr, if_neg (by rwa [List.head?_eq_getElem?])]
      rfl
  | cons b x ih =>
    obtain ⟨hquote, hbreak⟩ := hx b List.mem_cons_self
    rw [List.cons_append, literalTail, ih fun c hc => hx c (List.mem_cons_of_mem _ hc),
      List.length_cons]
    · omega
    · rintro _ rfl _
      exact hquote rfl
    · exact hquote
    · exact hbreak

/-- Bytes that are neither a quote nor a separator go in front of the item behind them. -/
theorem splitOutsideLiterals_plain {x : Text} (hx : ∀ b ∈ x, b ≠ quote ∧ b ≠ sep) (r : Text) :
    splitOutsideLiterals sep (x ++ r) = onFirst x (splitOutsideLiterals sep r) := by
  induction x with
  | nil => exact (onFirst_nil (splitOutsideLiterals_ne_nil sep r)).symm
  | cons b x ih =>
    obtain ⟨hquote, hb⟩ := hx b List.mem_cons_self
    rw [List.cons_append, splitOutsideLiterals, if_neg hquote, if_neg hb,
      ih fun c hc => hx c (List.mem_cons_of_mem _ hc), onFirst_onFirst, List.singleton_append]

/-- A way to split that goes over literals as wholes. -/
def KeepsLiterals (f : Text → List Text) : Prop :=
  ∀ r, f (quote :: r) = onFirst (quote :: r.take (literalTail r)) (f (r.drop (literalTail r)))

/-- A closed part of a literal goes in front of the item behind it. -/
theorem KeepsLiterals.pair {f : Text → List Text} (hf : KeepsLiterals f) {x : Text}
    (hx : ∀ b ∈ x, b ≠ quote ∧ b ≠ newline) (r : Text) :
    f (quote :: (x ++ quote :: r)) = onFirst (quote :: (x ++ [quote])) (f r) := by
  have htail := literalTail_pair hx r
  rw [hf]
  by_cases hr : r.head? = some quote
  · -- the literal goes on with the next quote
    obtain ⟨r, rfl⟩ := List.head?_eq_some_iff.mp hr
    rw [if_pos hr, List.tail_cons] at htail
    have htake : (x ++ quote :: quote :: r).take (literalTail (x ++ quote :: quote :: r)) =
        x ++ [quote] ++ quote :: r.take (literalTail r) := by
      rw [htail, Nat.add_assoc, List.take_length_add_append, List.append_assoc, Nat.add_comm 1,
        List.take_succ_cons, Nat.add_comm 1, List.take_succ_cons]
      rfl
    have hdrop : (x ++ quote :: quote :: r).drop (literalTail (x ++ quote :: quote :: r)) =
        r.drop (literalTail r) := by
      rw [htail, Nat.add_assoc, List.drop_length_add_append, Nat.add_comm 1, List.drop_succ_cons,
        Nat.add_comm 1, List.drop_succ_cons]
    rw [htake, hdrop, hf r, onFirst_onFirst, List.cons_append]
  · rw [if_neg hr, Nat.add_zero] at htail
    rw [htail, List.take_length_add_append, List.drop_length_add_append]
    rfl

theorem keepsLiterals_splitOutsideLiterals (sep : UInt8) :
    KeepsLiterals (splitOutsideLiterals sep) := fun r => by
  rw [splitOutsideLiterals, if_pos rfl]

theorem keepsLiterals_splitTopLevelFrom (depth : Int) (sep : UInt8) :
    KeepsLiterals (splitTopLevelFrom depth sep) := fun r => by
  rw [splitTopLevelFrom, if_pos rfl]

theorem splitOutsideLiterals_pair {x : Text} (hx : ∀ b ∈ x, b ≠ quote ∧ b ≠ newline) (r : Text) :
    splitOutsideLiterals sep (quote :: (x ++ quote :: r)) =
      onFirst (quote :: (x ++ [quote])) (splitOutsideLiterals sep r) :=
  (keepsLiterals_splitOutsideLiterals sep).pair hx r

/-- The items of a text before its last one, and the last one, which goes on with what stands
behind the text. -/
structure LastItem (sep : UInt8) (y : Text) (front : List Text) (item : Text) : Prop where
  suffix : item <:+ y
  whole : front = [] → item = y
  last : item.getLast? ≠ some sep
  even : item.count quote % 2 = 0
  split : ∀ z, splitOutsideLiterals sep (y ++ z) =
    front ++ onFirst item (splitOutsideLiterals sep z)

/-- What goes in front of the first item behind it goes in front of a text with a last item. -/
theorem LastItem.onFront {head y item : Text} {front : List Text} (h : LastItem sep y front item)
    (hlast : head.getLast? ≠ some sep) (heven : head.count quote % 2 = 0)
    (hsplit : ∀ r, splitOutsideLiterals sep (head ++ r) =
      onFirst head (splitOutsideLiterals sep r)) :
    ∃ front' item', LastItem sep (head ++ y) front' item' := by
  cases front with
  | nil =>
    obtain rfl := h.whole rfl
    refine ⟨[], head ++ item, List.suffix_rfl, fun _ => rfl, ?_, ?_, fun z => ?_⟩
    · rw [List.getLast?_append]
      have := h.last
      cases hitem : item.getLast? with
      | none => simpa using hlast
      | some c =>
        rw [hitem] at this
        simpa using this
    · have := h.even
      rw [List.count_append]
      omega
    · rw [List.append_assoc, hsplit, h.split, List.nil_append, List.nil_append, onFirst_onFirst]
  | cons f front =>
    refine ⟨(head ++ f) :: front, item, h.suffix.trans (List.suffix_append head y), nofun, h.last,
      h.even, fun z => ?_⟩
    rw [List.append_assoc, hsplit, h.split]
    rfl

include hsep in
/-- **The last item of a text with closed quotes goes on behind it.** -/
theorem exists_lastItem {y : Text} (hy : QuotesClosed y) :
    ∃ front item, LastItem sep y front item := by
  induction hy with
  | nil =>
    exact ⟨[], [], List.suffix_rfl, fun _ => rfl, nofun, rfl, fun z => by
      rw [List.nil_append, List.nil_append, onFirst_nil (splitOutsideLiterals_ne_nil sep z)]⟩
  | @plain b r hb _ ih =>
    obtain ⟨front, item, h⟩ := ih
    by_cases hbsep : b = sep
    · subst hbsep
      refine ⟨[] :: front, item, h.suffix.trans (List.suffix_cons b r), nofun, h.last, h.even,
        fun z => ?_⟩
      rw [List.cons_append, splitOutsideLiterals, if_neg hb, if_pos rfl, h.split]
      rfl
    · rw [← List.singleton_append]
      refine h.onFront (by simpa using hbsep) ?_ fun r => ?_
      · rw [List.count_eq_zero.mpr (by simpa using Ne.symm hb)]
      · rw [List.singleton_append, splitOutsideLiterals, if_neg hb, if_neg hbsep]
  | @pair x r hx _ ih =>
    obtain ⟨front, item, h⟩ := ih
    have hpair : quote :: (x ++ quote :: r) = quote :: (x ++ [quote]) ++ r := by simp
    have hcount : x.count quote = 0 := List.count_eq_zero.mpr fun hmem => (hx _ hmem).1 rfl
    rw [hpair]
    refine h.onFront ?_ ?_ fun z => ?_
    · rw [← List.cons_append, List.getLast?_concat]
      simpa using Ne.symm hsep
    · rw [List.count_cons_self, List.count_append, hcount, List.count_singleton_self]
    · rw [← splitOutsideLiterals_pair hx z]
      simp

end PascalSurvey.Source
