/-
PascalSurvey/Proofs/Source/Clean.lean

Texts without comments.  Masking the comments of a text makes each of them blank and keeps
literals and code as they are.  No comment comes in by it: where bytes on both sides of a
comment would open another one, they are still apart (`regionAt?_clean_code`), and a literal
ends where it ended (`regionAt?_clean_literal`).  So a text without comments is cut into code
and literals only (`CommentFree`).

A byte of such a text that is no blank is what stands in the text itself, and it is code in both
or in neither (`isCode_of_clean`).
-/
import PascalSurvey.Proofs.Source.Parens
import PascalSurvey.Proofs.Text.Local

namespace PascalSurvey.Source

open Ascii

/-- A text without its comments. -/
abbrev clean (t : Text) : Text := mask .comments t

/-! ### Piece by piece -/

@[simp] theorem clean_nil : clean [] = [] := by
  simp [mask, pieces]

theorem clean_code {b : UInt8} {r : Text} (h : regionAt? (b :: r) = none) :
    clean (b :: r) = b :: clean r := mask_code h _

theorem clean_comment {t : Text} {kind : Region} {n : Nat} (h : regionAt? t = some (kind, n))
    (hk : kind ≠ .literal) : clean t = blanked (t.take n) ++ clean (t.drop n) := by
  rw [clean, mask_region h, masked_comment hk]

theorem clean_literal {t : Text} {n : Nat} (h : regionAt? t = some (.literal, n)) :
    clean t = t.take n ++ clean (t.drop n) := mask_region h _

/-- Induction along the pieces of a text, comments and literals apart. -/
theorem piecewise_clean {motive : Text → Prop} (nil : motive [])
    (code : ∀ b r, regionAt? (b :: r) = none → motive r → motive (b :: r))
    (comment : ∀ t kind n, regionAt? t = some (kind, n) → kind ≠ .literal → motive (t.drop n) →
      motive t)
    (literal : ∀ t n, regionAt? t = some (.literal, n) → motive (t.drop n) → motive t)
    (t : Text) : motive t := by
  induction t using piecewise with
  | nil => exact nil
  | code b r hr ih => exact code b r hr ih
  | region t kind n hr ih =>
    by_cases hk : kind = .literal
    · subst hk
      exact literal t n hr ih
    · exact comment t kind n hr hk ih

/-! ### No comment comes in -/

/-- A byte at the head that is no space stands in the text itself. -/
theorem head_of_clean {t : Text} {b : UInt8} (h : (clean t)[0]? = some b) (hb : b ≠ space) :
    t[0]? = some b := by
  induction t using piecewise_clean with
  | nil => simp at h
  | code a r hr _ =>
    rw [clean_code hr] at h
    exact h
  | comment t kind n hr hk _ =>
    -- a comment begins with a byte that is made a space
    rw [clean_comment hr hk] at h
    cases opens_of_regionAt? hr with
    | line r | star r =>
      rw [Nat.add_comm 2] at h
      exact absurd (Option.some.inj h).symm hb
    | brace r =>
      rw [Nat.add_comm 1] at h
      exact absurd (Option.some.inj h).symm hb
    | literal r => exact absurd rfl hk
  | literal t n hr _ =>
    obtain ⟨hpos, hle⟩ := regionAt?_bounds hr
    rw [clean_literal hr, List.getElem?_append_left (by rw [List.length_take]; omega),
      List.getElem?_take, if_pos hpos] at h
    exact h

theorem regionAt?_clean_code {b : UInt8} {r : Text} (h : regionAt? (b :: r) = none) :
    regionAt? (b :: clean r) = none := by
  rcases hr : regionAt? (b :: clean r) with - | ⟨kind, n⟩
  · rfl
  · -- the byte behind it would be the same in the text
    have hnext {c : UInt8} {q : Text} (hc : clean r = c :: q) (hne : c ≠ space) :
        ∃ q', r = c :: q' := by
      have hat := head_of_clean (t := r) (by rw [hc]; rfl) hne
      rw [← List.head?_eq_getElem?] at hat
      exact List.head?_eq_some_iff.mp hat
    generalize hm : b :: clean r = m at hr
    cases opens_of_regionAt? hr with
    | line q =>
      obtain ⟨rfl, hq⟩ := List.cons.inj hm
      obtain ⟨q', rfl⟩ := hnext hq (by decide)
      cases h
    | star q =>
      obtain ⟨rfl, hq⟩ := List.cons.inj hm
      obtain ⟨q', rfl⟩ := hnext hq (by decide)
      cases h
    | brace q | literal q =>
      obtain ⟨rfl, -⟩ := List.cons.inj hm
      cases h

/-- A literal does not look at what follows it, save for the quote that would go on with it
and for the end of the line that ends it. -/
theorem literalTail_take_append {r u : Text} (hquote : u[0]? ≠ some quote)
    (hend : (r.drop (literalTail r))[0]? = none → u = [])
    (hbreak : (r.drop (literalTail r))[0]? = some newline → u[0]? = some newline) :
    literalTail (r.take (literalTail r) ++ u) = literalTail r := by
  fun_induction literalTail r with
  | case1 =>
    rw [hend rfl]
    rfl
  | case2 r ih =>
    rw [Nat.add_comm 2] at hend hbreak ⊢
    show 2 + literalTail (r.take (literalTail r) ++ u) = _
    rw [ih hend hbreak, Nat.add_comm]
  | case3 r hr => exact literalTail_close hquote
  | case4 r =>
    obtain ⟨u, rfl⟩ := Text.cons_of_getElem?_zero (hbreak rfl)
    rfl
  | case5 b r _ hne hne' ih =>
    rw [Nat.add_comm 1] at hend hbreak ⊢
    rw [List.take_succ_cons, List.cons_append, literalTail, ih hend hbreak, Nat.add_comm]
    · rintro _ rfl _
      exact hne rfl
    · exact hne
    · exact hne'

theorem regionAt?_clean_literal {t : Text} {n : Nat} (h : regionAt? t = some (.literal, n)) :
    regionAt? (t.take n ++ clean (t.drop n)) = some (.literal, n) := by
  cases opens_of_regionAt? h with
  | literal r =>
    have htail : literalTail (r.take (literalTail r) ++ clean (r.drop (literalTail r))) =
        literalTail r := by
      apply literalTail_take_append
      · intro hq
        have := head_of_clean hq (by decide)
        rw [List.getElem?_drop] at this
        exact literalTail_next r this
      · intro hnone
        rw [← List.head?_eq_getElem?, List.head?_eq_none_iff] at hnone
        rw [hnone, clean_nil]
      · intro hbreak
        obtain ⟨u, hu⟩ := Text.cons_of_getElem?_zero hbreak
        rw [hu, clean_code (regionAt?_eq_none _ (by decide) (by decide) (by decide) (by decide))]
        rfl
    rw [Nat.add_comm 1, List.take_succ_cons, List.drop_succ_cons, List.cons_append]
    show some (Region.literal, 1 + literalTail _) = _
    rw [htail, Nat.add_comm]

/-- A text that is cut into code bytes and literals. -/
inductive CommentFree : Text → Prop
  | nil : CommentFree []
  | code {b : UInt8} {r : Text} : regionAt? (b :: r) = none → CommentFree r → CommentFree (b :: r)
  | literal {t : Text} {n : Nat} : regionAt? t = some (.literal, n) → CommentFree (t.drop n) →
      CommentFree t

theorem regionAt?_of_mem_blanked {b : UInt8} {t : Text} (h : b ∈ blanked t) (r : Text) :
    regionAt? (b :: r) = none := by
  rcases isBlank_of_mem_blanked h with rfl | rfl | rfl <;>
    exact regionAt?_eq_none r (by decide) (by decide) (by decide) (by decide)

/-- **Masking the comments leaves none.** -/
theorem commentFree_clean (t : Text) : CommentFree (clean t) := by
  induction t using piecewise_clean with
  | nil =>
    rw [clean_nil]
    exact .nil
  | code b r hr ih =>
    rw [clean_code hr]
    exact .code (regionAt?_clean_code hr) ih
  | comment t kind n hr hk ih =>
    rw [clean_comment hr hk]
    generalize hbs : blanked (t.take n) = bs
    have hcode : ∀ b ∈ bs, ∀ r, regionAt? (b :: r) = none := fun b hb =>
      regionAt?_of_mem_blanked (hbs ▸ hb)
    clear hbs
    induction bs with
    | nil => exact ih
    | cons b bs ih' =>
      exact .code (hcode b List.mem_cons_self _) (ih' fun c hc => hcode c (List.mem_cons_of_mem _ hc))
  | literal t n hr ih =>
    have hlen : (t.take n).length = n := by
      rw [List.length_take, Nat.min_eq_left (regionAt?_bounds hr).2]
    rw [clean_literal hr]
    refine .literal (regionAt?_clean_literal hr) ?_
    rwa [List.drop_left' hlen]

/-! ### Code bytes -/

/-- A byte of a class that has no byte which opens a region opens none. -/
theorem regionAt?_of_class {p : UInt8 → Bool} {b : UInt8} (hb : p b = true)
    (hp : [slash, lbrace, lparen, quote].any p = false) (r : Text) : regionAt? (b :: r) = none := by
  rw [List.any_eq_false] at hp
  have hne {c : UInt8} (hc : c ∈ [slash, lbrace, lparen, quote]) : b ≠ c := by
    rintro rfl
    exact hp b hc hb
  exact regionAt?_eq_none r (hne (by simp)) (hne (by simp)) (hne (by simp)) (hne (by simp))

/-- Bytes that begin no region lead to the code behind them. -/
theorem isCode_append_code {bs : Text} (hbs : ∀ b ∈ bs, ∀ r, regionAt? (b :: r) = none) (t : Text)
    (i : Nat) : isCode (bs ++ t) (bs.length + i) = isCode t i := by
  induction bs with
  | nil => rw [List.nil_append, List.length_nil, Nat.zero_add]
  | cons b bs ih =>
    rw [List.cons_append, List.length_cons, Nat.add_right_comm,
      isCode_code_succ (hbs b List.mem_cons_self _), ih fun c hc => hbs c (List.mem_cons_of_mem _ hc)]

/-- So does the offset behind them lie outside. -/
theorem Outside.append_code {t bs r : Text} {i : Nat} (h : Outside t i) (hd : t.drop i = bs ++ r)
    (hbs : ∀ b ∈ bs, ∀ r, regionAt? (b :: r) = none) : Outside t (i + bs.length) := by
  refine h.add ?_
  rw [hd]
  clear hd
  induction bs with
  | nil => exact outside_zero r
  | cons b bs ih =>
    rw [List.cons_append, List.length_cons, outside_succ_code (hbs b List.mem_cons_self _)]
    exact ih fun c hc => hbs c (List.mem_cons_of_mem _ hc)

/-- The offset behind bytes of a slice that open no region is outside if the slice begins
outside. -/
theorem Outside.add_code {t : Text} {s e k : Nat} (h : Outside t s)
    (hk : k ≤ (Text.slice t s e).length)
    (hcode : ∀ b ∈ (Text.slice t s e).take k, ∀ r, regionAt? (b :: r) = none) :
    Outside t (s + k) := by
  have hlen : ((Text.slice t s e).take k).length = k := by
    rw [List.length_take, Nat.min_eq_left hk]
  have hdrop : t.drop s = (Text.slice t s e).take k ++ t.drop (s + k) := by
    rw [Text.slice, List.length_take] at hk
    rw [Text.slice, List.take_take, Nat.min_eq_left (by omega), ← List.drop_drop,
      List.take_append_drop]
  have hout := h.append_code hdrop hcode
  rwa [hlen] at hout

/-- A byte of code that is no blank is code in the text itself. -/
theorem isCode_of_clean {t : Text} {i : Nat} {b : UInt8} (h : isCode (clean t) i = true)
    (hb : (clean t)[i]? = some b) (hf : isFiller b = false) : isCode t i = true := by
  induction t using piecewise_clean generalizing i with
  | nil => simp at hb
  | code a r hr ih =>
    rw [clean_code hr] at h hb
    cases i with
    | zero => exact isCode_code_zero hr
    | succ i =>
      rw [isCode_code_succ (regionAt?_clean_code hr)] at h
      rw [isCode_code_succ hr]
      exact ih h hb
  | comment t kind n hr hk ih =>
    have hn := (regionAt?_bounds hr).2
    have hlen : (blanked (t.take n)).length = n := by
      rw [length_blanked, List.length_take, Nat.min_eq_left hn]
    rw [clean_comment hr hk] at h hb
    rw [List.getElem?_append, hlen] at hb
    split at hb
    · -- what stands in place of the comment is blank
      rcases isBlank_of_mem_blanked (List.mem_of_getElem? hb) with rfl | rfl | rfl <;>
        exact absurd hf (by decide)
    · next hi =>
      have hrest : isCode (clean (t.drop n)) (i - n) = true := by
        rw [← h, ← isCode_append_code (fun b hb => regionAt?_of_mem_blanked hb), hlen,
          Nat.add_sub_cancel' (Nat.le_of_not_lt hi)]
      rw [isCode_region hr, ih hrest hb]
      simpa using hi
  | literal t n hr ih =>
    have hn := (regionAt?_bounds hr).2
    have hlen : (t.take n).length = n := by rw [List.length_take, Nat.min_eq_left hn]
    rw [clean_literal hr] at h hb
    rw [isCode_region (regionAt?_clean_literal hr), List.drop_left' hlen, Bool.and_eq_true,
      decide_eq_true_eq] at h
    rw [List.getElem?_append_right (by rw [hlen]; exact h.1), hlen] at hb
    rw [isCode_region hr, ih h.2 hb]
    simpa using h.1

end PascalSurvey.Source
