/-
PascalSurvey/Proofs/Source/Place.lean

Places of a source text.  A text is cut from left to right into code bytes and regions
(`pieces`); an offset is *outside* when it does not fall inside a region, that is, when some
of the pieces end there.  `Outside t i` is that predicate, and it is what makes reading a
text from the middle mean the same as reading it from the start: the pieces of the rest are
the rest of the pieces (`Outside.pieces_eq`).

The second half is about what stands around a region.  A region that ends before its text
does is the same region in every longer text (`regionAt?_append`), so the pieces of two texts
put together are the pieces of the first and those of the second as soon as a code byte and
a line break end the first (`pieces_append`).
-/
import PascalSurvey.Source.Mask
import PascalSurvey.Proofs.Text.Bytes

namespace PascalSurvey.Source

open Ascii

/-! ### What a region is -/

/-- The text begins with a region of the given kind and size. -/
inductive Opens : Text → Region → Nat → Prop
  | line (r : Text) : Opens (slash :: slash :: r) .lineComment (2 + untilBreak r)
  | brace (r : Text) : Opens (lbrace :: r) .braceComment (1 + throughBrace r)
  | star (r : Text) : Opens (lparen :: asterisk :: r) .starComment (2 + throughStar r)
  | literal (r : Text) : Opens (quote :: r) .literal (1 + literalTail r)

theorem opens_of_regionAt? {t : Text} {kind : Region} {n : Nat}
    (h : regionAt? t = some (kind, n)) : Opens t kind n := by
  unfold regionAt? at h
  split at h
  · cases h
    exact .line _
  · cases h
    exact .brace _
  · cases h
    exact .star _
  · cases h
    exact .literal _
  · cases h

/-- Only four bytes begin a region. -/
theorem regionAt?_eq_none {b : UInt8} (r : Text) (hslash : b ≠ slash) (hbrace : b ≠ lbrace)
    (hparen : b ≠ lparen) (hquote : b ≠ quote) : regionAt? (b :: r) = none := by
  unfold regionAt?
  split <;> simp_all

theorem untilBreak_le (t : Text) : untilBreak t ≤ t.length := by
  fun_induction untilBreak t with
  | case1 | case2 => exact Nat.zero_le _
  | case3 b r _ ih =>
    rw [List.length_cons]
    omega

theorem throughBrace_le (t : Text) : throughBrace t ≤ t.length := by
  fun_induction throughBrace t with
  | case1 => exact Nat.zero_le _
  | case2 r => exact Nat.succ_pos r.length
  | case3 b r _ ih =>
    rw [List.length_cons]
    omega

theorem throughStar_le (t : Text) : throughStar t ≤ t.length := by
  fun_induction throughStar t with
  | case1 => exact Nat.zero_le _
  | case2 r => exact Nat.le_add_left 2 r.length
  | case3 b r _ ih =>
    rw [List.length_cons]
    omega

theorem literalTail_le (t : Text) : literalTail t ≤ t.length := by
  fun_induction literalTail t with
  | case1 | case4 => exact Nat.zero_le _
  | case2 r ih =>
    rw [List.length_cons, List.length_cons]
    omega
  | case3 r => exact Nat.succ_pos r.length
  | case5 b r _ _ _ ih =>
    rw [List.length_cons]
    omega

/-- A region has at least one byte, and none beyond its text. -/
theorem regionAt?_bounds {t : Text} {kind : Region} {n : Nat}
    (h : regionAt? t = some (kind, n)) : 0 < n ∧ n ≤ t.length := by
  cases opens_of_regionAt? h with
  | line r =>
    have := untilBreak_le r
    simp only [List.length_cons]
    omega
  | brace r =>
    have := throughBrace_le r
    simp only [List.length_cons]
    omega
  | star r =>
    have := throughStar_le r
    simp only [List.length_cons]
    omega
  | literal r =>
    have := literalTail_le r
    simp only [List.length_cons]
    omega

/-! ### Regions in longer texts -/

theorem untilBreak_append {t : Text} (u : Text) (h : untilBreak t < t.length) :
    untilBreak (t ++ u) = untilBreak t := by
  fun_induction untilBreak t with
  | case1 => simp at h
  | case2 => rfl
  | case3 b r hb ih =>
    rw [List.cons_append, untilBreak, ih (by simp only [List.length_cons] at h; omega)]
    exact hb

theorem throughBrace_append {t : Text} (u : Text) (h : throughBrace t < t.length) :
    throughBrace (t ++ u) = throughBrace t := by
  fun_induction throughBrace t with
  | case1 => simp at h
  | case2 => rfl
  | case3 b r hb ih =>
    rw [List.cons_append, throughBrace, ih (by simp only [List.length_cons] at h; omega)]
    exact hb

/-- A comment ends behind the bytes that cannot end it. -/
theorem throughBrace_skip {x : Text} (hx : rbrace ∉ x) (t : Text) :
    throughBrace (x ++ t) = x.length + throughBrace t := by
  induction x with
  | nil => exact (Nat.zero_add _).symm
  | cons b x ih =>
    rw [List.mem_cons, not_or] at hx
    rw [List.cons_append, throughBrace, ih hx.2, List.length_cons]
    · omega
    · exact fun h => hx.1 h.symm

theorem throughStar_append {t : Text} (u : Text) (h : throughStar t < t.length) :
    throughStar (t ++ u) = throughStar t := by
  fun_induction throughStar t with
  | case1 => simp at h
  | case2 => rfl
  | case3 b r hb ih =>
    -- the byte after `b` is in `t`, so `u` cannot turn it into a closing pair
    have hr : r ≠ [] := by
      rintro rfl
      simp [throughStar] at h
    obtain ⟨c, r', rfl⟩ := List.exists_cons_of_ne_nil hr
    rw [List.cons_append, throughStar, ih (by simp only [List.length_cons] at h ⊢; omega)]
    rintro r'' rfl heq
    injection heq with heq
    exact hb r' rfl (by rw [heq])

theorem literalTail_append {t : Text} (u : Text) (h : literalTail t < t.length) :
    literalTail (t ++ u) = literalTail t := by
  fun_induction literalTail t with
  | case1 => simp at h
  | case2 r ih =>
    simp only [List.cons_append]
    rw [literalTail, ih (by simp only [List.length_cons] at h; omega)]
  | case3 r hr =>
    -- the byte after the closing quote is in `t` and is no quote
    have hne : r ≠ [] := by
      rintro rfl
      simp at h
    obtain ⟨c, r', rfl⟩ := List.exists_cons_of_ne_nil hne
    simp only [List.cons_append]
    rw [literalTail]
    rintro r'' heq
    injection heq with heq
    exact hr r' (by rw [heq])
  | case4 => rfl
  | case5 b r _ hquote hbreak ih =>
    rw [List.cons_append, literalTail, ih (by simp only [List.length_cons] at h; omega)]
    · rintro r' rfl _
      exact hquote rfl
    · exact hquote
    · exact hbreak

/-- A region that ends before its text does is there in every longer text. -/
theorem regionAt?_append {t : Text} {kind : Region} {n : Nat} (u : Text)
    (h : regionAt? t = some (kind, n)) (hn : n < t.length) :
    regionAt? (t ++ u) = some (kind, n) := by
  cases opens_of_regionAt? h with
  | line r =>
    simp only [List.length_cons] at hn
    show some (Region.lineComment, 2 + untilBreak (r ++ u)) = _
    rw [untilBreak_append u (by omega)]
  | brace r =>
    simp only [List.length_cons] at hn
    show some (Region.braceComment, 1 + throughBrace (r ++ u)) = _
    rw [throughBrace_append u (by omega)]
  | star r =>
    simp only [List.length_cons] at hn
    show some (Region.starComment, 2 + throughStar (r ++ u)) = _
    rw [throughStar_append u (by omega)]
  | literal r =>
    simp only [List.length_cons] at hn
    show some (Region.literal, 1 + literalTail (r ++ u)) = _
    rw [literalTail_append u (by omega)]

/-- Two bytes decide whether a region begins. -/
theorem regionAt?_append_eq_none {b c : UInt8} {r : Text} (u : Text)
    (h : regionAt? (b :: c :: r) = none) : regionAt? (b :: c :: r ++ u) = none := by
  unfold regionAt? at h ⊢
  split at h <;> simp_all

/-! ### Pieces -/

@[simp] theorem Piece.text_code (b : UInt8) : (Piece.code b).text = [b] := rfl

@[simp] theorem Piece.text_region (kind : Region) (t : Text) : (Piece.region kind t).text = t := rfl

theorem pieces_code {b : UInt8} {r : Text} (h : regionAt? (b :: r) = none) :
    pieces (b :: r) = .code b :: pieces r := by
  rw [pieces, h]

theorem pieces_region {t : Text} {kind : Region} {n : Nat} (h : regionAt? t = some (kind, n)) :
    pieces t = .region kind (t.take n) :: pieces (t.drop n) := by
  obtain ⟨hpos, hle⟩ := regionAt?_bounds h
  obtain ⟨b, r, rfl⟩ := List.exists_cons_of_length_pos (by omega : 0 < t.length)
  obtain ⟨n, rfl⟩ := Nat.exists_eq_succ_of_ne_zero (by omega : n ≠ 0)
  rw [pieces, h]
  simp

theorem mask_code {b : UInt8} {r : Text} (h : regionAt? (b :: r) = none) (mode : Mask) :
    mask mode (b :: r) = b :: mask mode r := by
  rw [mask, pieces_code h, List.flatMap_cons]
  rfl

theorem mask_region {t : Text} {kind : Region} {n : Nat} (h : regionAt? t = some (kind, n))
    (mode : Mask) :
    mask mode t = (Piece.region kind (t.take n)).masked mode ++ mask mode (t.drop n) := by
  rw [mask, pieces_region h, List.flatMap_cons]
  rfl

/-- Induction along the pieces of a text. -/
theorem piecewise {motive : Text → Prop} (nil : motive [])
    (code : ∀ b r, regionAt? (b :: r) = none → motive r → motive (b :: r))
    (region : ∀ t kind n, regionAt? t = some (kind, n) → motive (t.drop n) → motive t)
    (t : Text) : motive t := by
  induction hlen : t.length using Nat.strongRecOn generalizing t with
  | ind n ih =>
    subst hlen
    cases t with
    | nil => exact nil
    | cons b r =>
      rcases hr : regionAt? (b :: r) with - | ⟨kind, n⟩
      · exact code b r hr (ih _ (by simp) r rfl)
      · have hpos := (regionAt?_bounds hr).1
        exact region _ kind n hr (ih _ (by simp; omega) _ rfl)

/-- The offset `i` is not inside a comment or a literal: pieces of the text end there. -/
def Outside (t : Text) (i : Nat) : Prop :=
  ∃ ps qs, pieces t = ps ++ qs ∧ (ps.flatMap Piece.text).length = i

theorem outside_zero (t : Text) : Outside t 0 := ⟨[], pieces t, rfl, rfl⟩

theorem outside_length (t : Text) : Outside t t.length :=
  ⟨pieces t, [], by simp, by rw [flatMap_text_pieces]⟩

instance (t : Text) (i : Nat) : Decidable (Outside t i) :=
  decidable_of_iff
    (∃ k < (pieces t).length + 1, (((pieces t).take k).flatMap Piece.text).length = i)
    ⟨fun ⟨k, _, hk⟩ => ⟨_, (pieces t).drop k, (List.take_append_drop k _).symm, hk⟩,
      fun ⟨ps, qs, h, hi⟩ => ⟨ps.length, by rw [h, List.length_append]; omega,
        by rwa [h, List.take_left]⟩⟩

theorem outside_succ_code {b : UInt8} {r : Text} {i : Nat} (h : regionAt? (b :: r) = none) :
    Outside (b :: r) (i + 1) ↔ Outside r i := by
  constructor
  · rintro ⟨ps, qs, hp, hi⟩
    rw [pieces_code h] at hp
    cases ps with
    | nil => simp at hi
    | cons p ps =>
      simp only [List.cons_append, List.cons.injEq] at hp
      obtain ⟨rfl, hp⟩ := hp
      refine ⟨ps, qs, hp, ?_⟩
      simp only [List.flatMap_cons, Piece.text_code, List.length_append, List.length_singleton] at hi
      omega
  · rintro ⟨ps, qs, hp, hi⟩
    refine ⟨.code b :: ps, qs, ?_, ?_⟩
    · rw [pieces_code h, hp]
      rfl
    · simp only [List.flatMap_cons, Piece.text_code, List.length_append, List.length_singleton]
      omega

/-- No offset is outside between the two ends of a region. -/
theorem outside_region {t : Text} {kind : Region} {n i : Nat} (h : regionAt? t = some (kind, n)) :
    Outside t i ↔ i = 0 ∨ n ≤ i ∧ Outside (t.drop n) (i - n) := by
  have hn := (regionAt?_bounds h).2
  constructor
  · rintro ⟨ps, qs, hp, hi⟩
    rw [pieces_region h] at hp
    cases ps with
    | nil => exact .inl (by simpa using hi.symm)
    | cons p ps =>
      simp only [List.cons_append, List.cons.injEq] at hp
      obtain ⟨rfl, hp⟩ := hp
      simp only [List.flatMap_cons, Piece.text_region, List.length_append, List.length_take] at hi
      exact .inr ⟨by omega, ps, qs, hp, by omega⟩
  · rintro (rfl | ⟨hle, ps, qs, hp, hi⟩)
    · exact outside_zero t
    · refine ⟨.region kind (t.take n) :: ps, qs, ?_, ?_⟩
      · rw [pieces_region h, hp]
        rfl
      · simp only [List.flatMap_cons, Piece.text_region, List.length_append, List.length_take]
        omega

/-- From an offset that is outside, the rest is cut as it is in the whole text. -/
theorem Outside.pieces_eq {t : Text} {i : Nat} (h : Outside t i) :
    ∃ ps, pieces t = ps ++ pieces (t.drop i) ∧ ps.flatMap Piece.text = t.take i := by
  obtain ⟨ps, qs, hp, rfl⟩ := h
  induction ps generalizing t with
  | nil => exact ⟨[], by simp, by simp⟩
  | cons p ps ih =>
    cases t with
    | nil => simp [pieces] at hp
    | cons b r =>
      rcases hr : regionAt? (b :: r) with - | ⟨kind, n⟩
      · rw [pieces_code hr] at hp
        simp only [List.cons_append, List.cons.injEq] at hp
        obtain ⟨rfl, hp⟩ := hp
        obtain ⟨ps', hps', htake⟩ := ih hp
        refine ⟨.code b :: ps', ?_, ?_⟩
        · rw [pieces_code hr, hps']
          simp only [List.flatMap_cons, Piece.text_code, List.cons_append, List.nil_append,
            List.length_cons, List.drop_succ_cons]
        · simp only [List.flatMap_cons, Piece.text_code, List.singleton_append, htake,
            List.length_cons, List.take_succ_cons]
      · have hn := (regionAt?_bounds hr).2
        rw [pieces_region hr] at hp
        simp only [List.cons_append, List.cons.injEq] at hp
        obtain ⟨rfl, hp⟩ := hp
        obtain ⟨ps', hps', htake⟩ := ih hp
        refine ⟨.region kind ((b :: r).take n) :: ps', ?_, ?_⟩
        · rw [pieces_region hr, hps']
          simp only [List.flatMap_cons, Piece.text_region, List.length_append, List.length_take,
            Nat.min_eq_left hn, List.drop_drop, List.cons_append]
        · simp only [List.flatMap_cons, Piece.text_region, htake, List.length_append,
            List.length_take, Nat.min_eq_left hn, List.take_add]

theorem Outside.le_length {t : Text} {i : Nat} (h : Outside t i) : i ≤ t.length := by
  obtain ⟨ps, qs, hp, rfl⟩ := h
  have := congrArg (fun x => (x.flatMap Piece.text).length) hp
  simp only [flatMap_text_pieces, List.flatMap_append, List.length_append] at this
  omega

theorem Outside.add {t : Text} {i j : Nat} (h : Outside t i) (hj : Outside (t.drop i) j) :
    Outside t (i + j) := by
  obtain ⟨ps, hps, htake⟩ := h.pieces_eq
  obtain ⟨qs, rs, hqs, hj⟩ := hj
  refine ⟨ps ++ qs, rs, by rw [hps, hqs, List.append_assoc], ?_⟩
  simp only [List.flatMap_append, List.length_append, htake, hj, List.length_take,
    Nat.min_eq_left h.le_length]

theorem Outside.region {t : Text} {i n : Nat} {kind : Region} (h : Outside t i)
    (hr : regionAt? (t.drop i) = some (kind, n)) : Outside t (i + n) :=
  h.add ((outside_region hr).mpr (.inr ⟨Nat.le_refl n, by
    rw [Nat.sub_self]
    exact outside_zero _⟩))

theorem Outside.code {t : Text} {i : Nat} {b : UInt8} {r : Text} (h : Outside t i)
    (hd : t.drop i = b :: r) (hr : regionAt? (b :: r) = none) : Outside t (i + 1) := by
  refine h.add ?_
  rw [hd, outside_succ_code hr]
  exact outside_zero r

/-- A place before another one is also a place of what is left. -/
theorem Outside.drop {t : Text} {i j : Nat} (h : Outside t i) (hij : Outside t (i + j)) :
    Outside (t.drop i) j := by
  obtain ⟨ps, hps, htake⟩ := h.pieces_eq
  obtain ⟨qs, rs, hqs, hlen⟩ := hij
  rw [hps] at hqs
  -- the shorter list of pieces is a beginning of the longer one
  rcases List.append_eq_append_iff.mp hqs with ⟨us, rfl, hrest⟩ | ⟨us, rfl, rfl⟩
  · refine ⟨us, rs, hrest, ?_⟩
    simp only [List.flatMap_append, List.length_append, htake, List.length_take,
      Nat.min_eq_left h.le_length] at hlen
    omega
  · have hi : ((qs ++ us).flatMap Piece.text).length = i := by
      rw [htake, List.length_take, Nat.min_eq_left h.le_length]
    simp only [List.flatMap_append, List.length_append] at hi
    obtain rfl : j = 0 := by omega
    exact outside_zero _

/-- The pieces of a text that ends with a semicolon of code and a line break go on with the
pieces of whatever is put behind it. -/
theorem pieces_append (u : Text) {t : Text} (h : Outside (t ++ [semicolon, newline]) t.length) :
    pieces (t ++ [semicolon, newline] ++ u) = pieces (t ++ [semicolon, newline]) ++ pieces u := by
  induction hlen : t.length using Nat.strongRecOn generalizing t with
  | ind n ih =>
    subst hlen
    have hsemi (r : Text) : regionAt? (semicolon :: r) = none :=
      regionAt?_eq_none r (by decide) (by decide) (by decide) (by decide)
    have hbreak (r : Text) : regionAt? (newline :: r) = none :=
      regionAt?_eq_none r (by decide) (by decide) (by decide) (by decide)
    cases t with
    | nil => simp [pieces_code, hsemi, hbreak, pieces]
    | cons a r =>
      rcases hr : regionAt? (a :: r ++ [semicolon, newline]) with - | ⟨kind, n⟩
      · have hlong : regionAt? (a :: (r ++ [semicolon, newline] ++ u)) = none := by
          cases r <;> exact regionAt?_append_eq_none u hr
        have hout : Outside (r ++ [semicolon, newline]) r.length :=
          (outside_succ_code hr).mp h
        simp only [List.cons_append] at hr ⊢
        rw [pieces_code hr, pieces_code hlong, ih _ (by simp) hout rfl]
        rfl
      · -- the region ends before the semicolon, so it is a region of the longer text too
        rcases (outside_region hr).mp h with h0 | ⟨hn, hout⟩
        · simp at h0
        · have hlong := regionAt?_append u hr
            (by simp only [List.length_append, List.length_cons] at hn ⊢; omega)
          rw [List.drop_append_of_le_length hn] at hout
          have hpos := (regionAt?_bounds hr).1
          rw [pieces_region hlong, pieces_region hr, List.append_assoc,
            List.take_append_of_le_length hn, List.take_append_of_le_length hn,
            List.drop_append_of_le_length hn, List.drop_append_of_le_length hn,
            ← List.append_assoc, ih ((a :: r).drop n).length (by simp; omega)
              (by simpa using hout) rfl]
          rfl

/-! ### Texts that nothing behind them changes -/

/-- A text that is cut as it is on its own, whatever stands behind it. -/
def Standalone (x : Text) : Prop := ∀ r, pieces (x ++ r) = pieces x ++ pieces r

theorem pieces_nil : pieces [] = [] := by rw [pieces]

theorem mask_nil (mode : Mask) : mask mode [] = [] := by rw [mask, pieces_nil, List.flatMap_nil]

section
variable {x y : Text} {mode : Mask}

theorem standalone_nil : Standalone [] := fun r => by rw [pieces_nil]; rfl

theorem Standalone.append (hx : Standalone x) (hy : Standalone y) : Standalone (x ++ y) := fun r => by
  rw [List.append_assoc, hx, hy, hx, List.append_assoc]

theorem Standalone.mask_append (hx : Standalone x) (mode : Mask) (r : Text) :
    mask mode (x ++ r) = mask mode x ++ mask mode r := by
  rw [mask, hx, List.flatMap_append]
  rfl

/-- Bytes that begin no region are cut off one by one. -/
theorem pieces_codes (hx : ∀ b ∈ x, ∀ r, regionAt? (b :: r) = none) (r : Text) :
    pieces (x ++ r) = x.map Piece.code ++ pieces r := by
  induction x with
  | nil => rfl
  | cons b x ih =>
    rw [List.cons_append, pieces_code (hx b List.mem_cons_self _),
      ih fun c hc => hx c (List.mem_cons_of_mem _ hc)]
    rfl

theorem standalone_codes (hx : ∀ b ∈ x, ∀ r, regionAt? (b :: r) = none) : Standalone x := fun r => by
  have hnil := pieces_codes hx []
  rw [List.append_nil, pieces_nil, List.append_nil] at hnil
  rw [pieces_codes hx, hnil]

theorem mask_codes (hx : ∀ b ∈ x, ∀ r, regionAt? (b :: r) = none) (mode : Mask) :
    mask mode x = x := by
  have hnil := pieces_codes hx []
  rw [List.append_nil, pieces_nil, List.append_nil] at hnil
  rw [mask, hnil, List.flatMap_map]
  exact List.flatMap_singleton' x

/-- A closed comment is one piece. -/
theorem pieces_brace (hx : rbrace ∉ x) (r : Text) :
    pieces (lbrace :: (x ++ [rbrace]) ++ r) =
      .region .braceComment (lbrace :: (x ++ [rbrace])) :: pieces r := by
  have hregion : regionAt? (lbrace :: (x ++ [rbrace]) ++ r) =
      some (.braceComment, (lbrace :: (x ++ [rbrace])).length) := by
    show some (Region.braceComment, 1 + throughBrace (x ++ [rbrace] ++ r)) = _
    rw [List.append_assoc, throughBrace_skip hx]
    show some (Region.braceComment, 1 + (x.length + 1)) = _
    rw [List.length_cons, List.length_append, Nat.add_comm 1]
    rfl
  rw [pieces_region hregion, List.take_left, List.drop_left]

theorem standalone_brace (hx : rbrace ∉ x) : Standalone (lbrace :: (x ++ [rbrace])) := fun r => by
  have hnil := pieces_brace hx []
  rw [List.append_nil, pieces_nil] at hnil
  rw [pieces_brace hx, hnil]
  rfl

theorem mask_brace (hx : rbrace ∉ x) (mode : Mask) :
    mask mode (lbrace :: (x ++ [rbrace])) = blanked (lbrace :: (x ++ [rbrace])) := by
  have hnil := pieces_brace hx []
  rw [List.append_nil, pieces_nil] at hnil
  rw [mask, hnil, List.flatMap_singleton]
  rfl

end

/-! ### Code bytes -/

/-- Which bytes of a piece are code. -/
def Piece.marks : Piece → List Bool
  | .code _ => [true]
  | .region _ t => t.map fun _ => false

/-- Which bytes of a text are code. -/
def codeMarks (t : Text) : List Bool := (pieces t).flatMap Piece.marks

/-- Whether the byte at an offset is code: it stands in the text, and in no comment or
literal. -/
def isCode (t : Text) (i : Nat) : Bool := (codeMarks t)[i]?.getD false

end PascalSurvey.Source
