/-
PascalSurvey/Proofs/Outline/Uses.lean

What a `uses` clause says does not depend on its comments.  A comment is a gap in both overlays of
a text.  It does not matter to an item how long a gap is (`ofItem?_gap`), and a gap between two
items, or beside blanks, may be left out of a clause (`parseClause_gap`).  So the comments can be
taken out of a text one by one, as long as nothing joins where one stood (`ofProgram_removes`).
-/
import PascalSurvey.Outline.Uses
import PascalSurvey.Proofs.Outline.Section
import PascalSurvey.Proofs.Source.Keyword
import PascalSurvey.Proofs.Source.Name
import PascalSurvey.Proofs.Source.Removal
import PascalSurvey.Proofs.Source.Split

namespace PascalSurvey.Outline.UsesEntry

open Ascii Source

/-! ### Gaps in an item -/

/-- What stands in front of a path: blanks, `in` and blanks. -/
def pathStart? (t : Text) : Option Nat :=
  let lead := Text.blankRun t
  (Text.matchFold? "in" (t.drop lead)).bind fun n =>
    let gap := Text.blankRun (t.drop (lead + n))
    if lead = 0 ∨ gap = 0 then none else some (lead + n + gap)

/-- The text in quotes at the head of a text. -/
def quoted? (t : Text) : Option Text :=
  match t with
  | quote :: r => (Text.cut? quote r).map (·.1)
  | _ => none

theorem inPath?_eq (t : Text) : inPath? t = (pathStart? t).bind fun n => quoted? (t.drop n) := by
  rw [inPath?, pathStart?]
  simp only [Option.bind_eq_bind, Option.bind_assoc]
  congr 1
  funext n
  split <;> rfl

theorem elastic_pathStart? : Elastic pathStart? := by
  have hblank := Text.elastic_blankRun.positive
  have hin : Elastic (Text.matchFold? "in") := Text.elastic_matchFold? (List.all_eq_true.mp rfl)
  refine ((hblank.andThen hin).andThen hblank).congr fun t => ?_
  rw [pathStart?]
  simp only [Option.filter_some, decide_eq_true_eq]
  rcases Nat.eq_zero_or_pos (Text.blankRun t) with hlead | hlead
  · rw [if_neg (by omega), Option.bind_none, Option.bind_none, Option.bind_eq_none_iff]
    exact fun n _ => if_pos (.inl hlead)
  · rw [if_pos hlead, Option.bind_some]
    rcases Text.matchFold? "in" (t.drop (Text.blankRun t)) with - | n
    · rfl
    · simp only [Option.bind_some, Option.map_some]
      rcases Nat.eq_zero_or_pos (Text.blankRun (t.drop (Text.blankRun t + n))) with hgap | hgap
      · rw [if_pos (.inr hgap), if_neg (by omega), Option.map_none]
      · rw [if_neg (by omega), if_pos hgap, Option.map_some]

/-- The text in quotes ends before a gap behind which the quotes are closed. -/
theorem quoted?_gap {u e e' : Text} (he : IsGap e) (he' : IsGap e') (hu : u.count quote % 2 = 0)
    (v : Text) : quoted? (u ++ e ++ v) = quoted? (u ++ e' ++ v) := by
  cases u with
  | nil =>
    -- no gap begins with a quote
    have hnone {e : Text} (he : IsGap e) : quoted? ([] ++ e ++ v) = none := by
      obtain ⟨c, r, rfl, hc⟩ := he.cons
      rw [List.nil_append, List.cons_append, quoted?]
      rintro _ h
      rw [(List.cons.inj h).1] at hc
      cases hc
    rw [hnone he, hnone he']
  | cons a u =>
    by_cases ha : a = quote
    · subst ha
      rw [List.count_cons_self] at hu
      have hmem : quote ∈ u := by
        rw [← List.count_pos_iff]
        omega
      obtain ⟨x, y, rfl, hx⟩ := List.eq_append_cons_of_mem hmem
      have hsome (r : Text) : quoted? (quote :: (x ++ quote :: r)) = some x := by
        show (Text.cut? quote (x ++ quote :: r)).map (·.1) = _
        rw [Text.cut?_append hx, Option.map_some]
      simp only [List.cons_append, List.append_assoc, hsome]
    · have hnone (r : Text) : quoted? (a :: r) = none := by
        rw [quoted?]
        rintro _ h
        exact ha (List.cons.inj h).1
      rw [List.cons_append, List.cons_append, hnone, List.cons_append, List.cons_append, hnone]

/-! ### Items -/

/-- The entry that a trimmed item begins with. -/
def ofTrimmed? (t : Text) : Option UsesEntry :=
  (dottedName? Text.identFold? t).map fun n =>
    ⟨Text.withoutBlanks (t.take n), (inPath? (t.drop n)).map Text.forwardSlashes⟩

theorem ofItem?_eq (item : Text) : ofItem? item = ofTrimmed? (Text.trim item) := by
  rw [ofItem?, ofTrimmed?]
  cases dottedName? Text.identFold? (Text.trim item) <;> rfl

section
variable {u e e' v : Text} (he : IsGap e) (he' : IsGap e') (hu : u.count quote % 2 = 0)
include he he' hu

theorem inPath?_gap : inPath? (u ++ e ++ v) = inPath? (u ++ e' ++ v) := by
  have hplace := elastic_pathStart?.place (u := u) (v := v) he he'
  rw [inPath?_eq, inPath?_eq]
  generalize ha : pathStart? (u ++ e ++ v) = a, pathStart? (u ++ e' ++ v) = b at hplace
  cases hplace with
  | none => rfl
  | @some n n' hsame =>
    rw [Option.bind_some, Option.bind_some]
    rcases hsame.rest with ⟨rfl, hle, hrest, hrest'⟩ | heq
    · have hcount := elastic_pathStart?.count_drop ha hle
      rw [hrest, hrest', quoted?_gap he he' (hcount ▸ hu)]
    · rw [heq]

theorem ofTrimmed?_gap : ofTrimmed? (u ++ e ++ v) = ofTrimmed? (u ++ e' ++ v) := by
  have hname := elastic_dottedName? Text.elastic_identFold?
  have hplace := hname.place (u := u) (v := v) he he'
  rw [ofTrimmed?, ofTrimmed?]
  generalize ha : dottedName? Text.identFold? (u ++ e ++ v) = a,
    dottedName? Text.identFold? (u ++ e' ++ v) = b at hplace
  cases hplace with
  | none => rfl
  | @some n n' hsame =>
    rw [Option.map_some, Option.map_some, Text.withoutBlanks_gap he he' hsame]
    rcases hsame.rest with ⟨rfl, hle, hrest, hrest'⟩ | heq
    · have hcount := hname.count_drop ha hle
      rw [hrest, hrest', inPath?_gap he he' (hcount ▸ hu)]
    · rw [heq]

/-- **It does not matter to an item how long a gap is** that stands outside quotes. -/
theorem ofItem?_gap : ofItem? (u ++ e ++ v) = ofItem? (u ++ e' ++ v) := by
  rw [ofItem?_eq, ofItem?_eq]
  rcases Text.trim_gap he he' u v with heq | ⟨u₂, v₂, hcount, hu₂, hu₂'⟩
  · rw [heq]
  · rw [hu₂, hu₂', ofTrimmed?_gap he he' (hcount ▸ hu)]

end

/-! ### Gaps in a clause -/

/-- Blanks belong to the item behind them. -/
theorem splitOutsideLiterals_blanks {e : Text} (he : ∀ b ∈ e, isBlank b = true) (z : Text) :
    splitOutsideLiterals comma (e ++ z) = onFirst e (splitOutsideLiterals comma z) :=
  splitOutsideLiterals_plain
    (fun b hb => ⟨ne_of_class (he b hb) rfl, ne_of_class (he b hb) rfl⟩) z

/-- Nothing joins at the seam between two texts: a blank or a comma stands on one side of it, or
nothing. -/
def ClauseSeam (y z : Text) : Prop :=
  (∀ c, y.getLast? = some c → isBlank c = true ∨ c = comma) ∨
    ∀ c, z.head? = some c → isBlank c = true ∨ c = comma

/-- **A gap may be left out of a clause where nothing joins.** -/
theorem parseClause_gap {e y z : Text} (he : IsGap e) (hy : QuotesClosed y)
    (hseam : ClauseSeam y z) : parseClause (y ++ e ++ z) = parseClause (y ++ z) := by
  obtain ⟨front, item, h⟩ : ∃ front item, LastItem comma y front item :=
    exists_lastItem (by decide) hy
  obtain ⟨piece, rest, hpiece⟩ :=
    List.exists_cons_of_ne_nil (splitOutsideLiterals_ne_nil comma z)
  suffices hitem : ofItem? (item ++ e ++ piece) = ofItem? (item ++ piece) by
    rw [parseClause, parseClause, List.append_assoc, h.split, h.split,
      splitOutsideLiterals_blanks he.blank, hpiece, onFirst_onFirst, onFirst_cons, onFirst_cons,
      List.filterMap_append, List.filterMap_append, List.filterMap_cons, List.filterMap_cons, hitem]
  -- a gap that ends an item, and one behind which a blank stands
  have hlast (hnil : piece = []) : ofItem? (item ++ e ++ piece) = ofItem? (item ++ piece) := by
    rw [hnil, List.append_nil, List.append_nil, ofItem?_eq, ofItem?_eq, Text.trim_behind he]
  have hblank {c : UInt8} (hc : isBlank c = true) : IsGap [c] := ⟨by simp, by simpa using hc⟩
  rcases hseam with hseam | hseam
  · rcases List.eq_nil_or_concat item with rfl | ⟨u, b, rfl⟩
    · -- the gap begins an item
      rw [ofItem?_eq, ofItem?_eq, List.nil_append, List.nil_append, Text.trim_front he.blanks]
    · rw [List.concat_eq_append] at h ⊢
      obtain ⟨y', rfl⟩ := h.suffix
      have hb : isBlank b = true := by
        rcases hseam b (by simp) with hb | rfl
        · exact hb
        · exact absurd List.getLast?_concat h.last
      have hcount : u.count quote % 2 = 0 := by
        have := h.even
        rwa [List.count_append, List.count_eq_zero.mpr (hblank hb).quote_not_mem,
          Nat.add_zero] at this
      have hmore : IsGap ([b] ++ e) := ⟨by simp, by simpa [hb] using he.blank⟩
      have := ofItem?_gap hmore (hblank hb) hcount (v := piece)
      rwa [← List.append_assoc] at this
  · cases z with
    | nil =>
      rw [splitOutsideLiterals] at hpiece
      exact hlast (List.cons.inj hpiece).1.symm
    | cons c z =>
      rcases hseam c rfl with hc | rfl
      · -- the blank goes on with the gap
        rw [← List.singleton_append, splitOutsideLiterals_blanks (hblank hc).blank] at hpiece
        obtain ⟨p, ps, hps⟩ := List.exists_cons_of_ne_nil (splitOutsideLiterals_ne_nil comma z)
        rw [hps, onFirst_cons] at hpiece
        obtain ⟨rfl, -⟩ := List.cons.inj hpiece
        have hmore : IsGap (e ++ [c]) := by
          refine ⟨by simp, fun b hb => ?_⟩
          rcases List.mem_append.mp hb with hb | hb
          · exact he.blank b hb
          · exact (hblank hc).blank b hb
        have := ofItem?_gap hmore (hblank hc) h.even (v := p)
        simpa only [List.append_assoc] using this
      · rw [splitOutsideLiterals, if_neg (by decide), if_pos rfl] at hpiece
        exact hlast (List.cons.inj hpiece).1.symm

/-! ### The overlays of pieces -/

section
variable {us vs : List Piece} {p : Piece} {mode : Mask} {c : UInt8}

theorem mask_textOf (h : pieces (textOf us) = us) (mode : Mask) :
    mask mode (textOf us) = us.flatMap (Piece.masked mode) := by
  rw [mask, h]

/-- A piece with which nothing joins looks the same in both overlays, and so does each of its
bytes. -/
theorem masked_gap (mode : Mask) (h : p.isGap = true) :
    (∀ mode', p.masked mode' = p.masked mode) ∧
      ∀ c ∈ p.masked mode, (Piece.code c).isGap = true := by
  cases p with
  | code b =>
    refine ⟨fun _ => rfl, fun c hc => ?_⟩
    rwa [List.mem_singleton.mp hc]
  | region kind s =>
    have hk : kind ≠ .literal := by simpa [Piece.isGap] using h
    refine ⟨fun _ => by rw [masked_comment hk, masked_comment hk], fun c hc => ?_⟩
    rw [masked_comment hk] at hc
    rcases isBlank_of_mem_blanked hc with rfl | rfl | rfl <;> rfl

theorem last_masked (hne : ∀ p ∈ us, p.text ≠ []) (hgap : us.getLast?.all Piece.isGap = true)
    (h : (us.flatMap (Piece.masked mode)).getLast? = some c) :
    (Piece.code c).isGap = true ∧
      ∀ mode', (us.flatMap (Piece.masked mode')).getLast? = some c := by
  rcases List.eq_nil_or_concat us with rfl | ⟨us, p, rfl⟩
  · cases h
  · rw [List.concat_eq_append, List.getLast?_concat, Option.all_some] at hgap
    obtain ⟨hsame, hbytes⟩ := masked_gap mode hgap
    have hlast (mode' : Mask) : ((us.concat p).flatMap (Piece.masked mode')).getLast? =
        (p.masked mode).getLast? := by
      have hp : p.masked mode ≠ [] := by
        rw [← List.length_pos_iff, Piece.length_masked]
        exact List.length_pos_iff.mpr (hne p (by simp))
      rw [List.concat_eq_append, List.flatMap_append, List.flatMap_singleton, hsame mode',
        List.getLast?_append_of_ne_nil _ hp]
    rw [hlast] at h
    exact ⟨hbytes c (List.mem_of_getLast? h), fun mode' => (hlast mode').trans h⟩

theorem head_masked (hne : ∀ p ∈ us, p.text ≠ []) (hgap : us.head?.all Piece.isGap = true)
    (h : (us.flatMap (Piece.masked mode)).head? = some c) :
    (Piece.code c).isGap = true ∧ ∀ mode', (us.flatMap (Piece.masked mode')).head? = some c := by
  cases us with
  | nil => cases h
  | cons p us =>
    rw [List.head?_cons, Option.all_some] at hgap
    obtain ⟨hsame, hbytes⟩ := masked_gap mode hgap
    have hhead (mode' : Mask) : ((p :: us).flatMap (Piece.masked mode')).head? =
        (p.masked mode).head? := by
      have hp : p.masked mode ≠ [] := by
        rw [← List.length_pos_iff, Piece.length_masked]
        exact List.length_pos_iff.mpr (hne p List.mem_cons_self)
      rw [List.flatMap_cons, hsame mode', List.head?_append_of_ne_nil _ hp]
    rw [hhead] at h
    exact ⟨hbytes c (List.mem_of_head? h), fun mode' => (hhead mode').trans h⟩

end

/-! ### Where a clause stands -/

theorem isLower_of_mem_uses : ∀ c ∈ ("uses" : Text), isLower c = true := List.all_eq_true.mp rfl

/-- A keyword that is found in a part of the overlay ends outside comments and literals. -/
theorem outside_of_findWordEnd?_slice {word t : Text} {s e n : Nat} (hne : word ≠ [])
    (hword : ∀ w ∈ word, isLower w = true)
    (h : findWordEnd? word (Text.slice (overlay t) s e) = some n) : Outside t (s + n) := by
  obtain ⟨j, k, -, -, hfold, -, rfl⟩ := exists_of_findWordEnd? h
  rcases matchFold?_last hword hfold with ⟨hnil, -⟩ | ⟨k, b, rfl, hb, hf⟩
  · exact absurd hnil hne
  · rw [Text.slice, List.getElem?_drop, List.getElem?_take] at hb
    split at hb
    · rw [List.getElem?_drop] at hb
      exact outside_succ_of_overlay hb hf
    · cases hb

/-- So does one that is found in all of it. -/
theorem outside_of_findWordEnd? {word t : Text} {n : Nat} (hne : word ≠ [])
    (hword : ∀ w ∈ word, isLower w = true) (h : findWordEnd? word (overlay t) = some n) :
    Outside t n := by
  have hall : Text.slice (overlay t) 0 (overlay t).length = overlay t := by
    rw [Text.slice, List.drop_zero, Nat.sub_zero, List.take_length]
  rw [← hall] at h
  rw [← Nat.zero_add n]
  exact outside_of_findWordEnd?_slice hne hword h

/-- The entries between the keyword and the next semicolon. -/
def ofOverlays (code noComments : Text) : List UsesEntry :=
  match findWordEnd? "uses" code with
  | none => []
  | some n => match Text.find? semicolon (code.drop n) with
    | none => []
    | some m => parseClause ((noComments.drop n).take m)

/-- In a text without sections the outline has the entries of the program. -/
theorem interfaceUses_eq_ofProgram {t : Text} (h : sections (overlay t) = (none, none))
    (file : Path) : (ofText t file).interfaceUses = ofProgram t := by
  rw [ofText, ofProgram]
  simp only [h, Option.map_some, Option.getD_some, length_mask]

theorem ofProgram_eq (t : Text) : ofProgram t = ofOverlays (overlay t) (clean t) := by
  have hslice (x : Text) (n : Nat) (hx : x.length = t.length) :
      Text.slice x n t.length = x.drop n := by
    rw [Text.slice, List.take_of_length_le (by rw [List.length_drop, hx])]
  rw [ofProgram, within, hslice _ 0 (length_mask _ t), List.drop_zero, ofOverlays]
  cases findWordEnd? "uses" (overlay t) with
  | none => rfl
  | some n =>
    dsimp only
    rw [Nat.zero_add, hslice _ n (length_mask _ t)]
    cases Text.find? semicolon ((overlay t).drop n) with
    | none => rfl
    | some m =>
      dsimp only
      rw [Text.slice, Nat.add_sub_cancel_left]

theorem find?_append (x y : Text) : Text.find? semicolon (x ++ y) =
    (Text.find? semicolon x).or ((Text.find? semicolon y).map (x.length + ·)) := by
  rw [Text.find?, List.findIdx?_append]
  simp only [Nat.add_comm x.length]
  rfl

section
variable {a a' e b b' : Text} (he : IsGap e)
include he

/-- The keyword stands in front of a gap or behind it. -/
theorem findWordEnd?_gap {word : Text} (hne : word ≠ []) (hword : ∀ w ∈ word, isLower w = true)
    (a b : Text) : findWordEnd? word (a ++ e ++ b) =
      (findWordEnd? word a).or ((findWordEnd? word b).map (a.length + e.length + ·)) := by
  have hfront : Severed a (e ++ b) := by
    obtain ⟨c, r, rfl, hc⟩ := he.cons
    refine .inr fun d hd => ?_
    rw [← Option.some.inj hd]
    exact isSeparator_of_isBlank hc
  have hbehind : Severed e b :=
    .inl fun c hc => isSeparator_of_isBlank (he.blank c (List.mem_of_getLast? hc))
  rw [List.append_assoc, findWordEnd?_append hne hword hfront, findWordEnd?_append hne hword hbehind,
    findWordEnd?_separators hne hword fun b hb => isSeparator_of_isBlank (he.blank b hb),
    Option.none_or, Option.map_map]
  simp only [Function.comp_def, Nat.add_assoc]

/-- No semicolon stands in a gap. -/
theorem find?_gap (x y : Text) : Text.find? semicolon (x ++ e ++ y) =
    (Text.find? semicolon x).or ((Text.find? semicolon y).map (x.length + e.length + ·)) := by
  have hnone : Text.find? semicolon e = none := by
    rw [Text.find?, List.findIdx?_eq_none_iff]
    intro c hc
    rw [beq_eq_false_iff_ne]
    rintro rfl
    cases he.blank _ hc
  rw [List.append_assoc, find?_append, find?_append, hnone, Option.none_or, Option.map_map]
  simp only [Function.comp_def, Nat.add_assoc]

/-- A gap may be left out of both overlays if that keeps the keyword, and if nothing joins in the
clause. -/
theorem ofOverlays_gap (hlen : a'.length = a.length) (hsevered : Severed a b)
    (hclosed : ∀ n, findWordEnd? "uses" a = some n → QuotesClosed (a'.drop n))
    (hseam : ∀ n m, findWordEnd? "uses" a = some n → Text.find? semicolon (a.drop n) = none →
      Text.find? semicolon b = some m → ClauseSeam (a'.drop n) (b'.take m)) :
    ofOverlays (a ++ b) (a' ++ b') = ofOverlays (a ++ e ++ b) (a' ++ e ++ b') := by
  have hne : ("uses" : Text) ≠ [] := by decide
  rw [ofOverlays, ofOverlays, findWordEnd?_gap he hne isLower_of_mem_uses,
    findWordEnd?_append hne isLower_of_mem_uses hsevered]
  rcases ha : findWordEnd? "uses" a with - | n
  · rcases findWordEnd? "uses" b with - | k
    · rfl
    · -- the clause stands behind the gap
      have hdrop {x : Text} (hx : x.length = a.length) (y : Text) :
          (x ++ y).drop (a.length + k) = y.drop k := by
        rw [← hx, List.drop_length_add_append]
      have hdrop' {x : Text} (hx : x.length = a.length) (y : Text) :
          (x ++ e ++ y).drop (a.length + e.length + k) = y.drop k := by
        rw [← hx, ← List.length_append, List.drop_length_add_append]
      simp only [Option.map_some, Option.none_or, hdrop rfl, hdrop hlen, hdrop' rfl, hdrop' hlen]
  · have hle := findWordEnd?_le ha
    have hdrop {x : Text} (hx : x.length = a.length) (y : Text) :
        (x ++ y).drop n = x.drop n ++ y := List.drop_append_of_le_length (by omega)
    have hdrop' {x : Text} (hx : x.length = a.length) (y : Text) :
        (x ++ e ++ y).drop n = x.drop n ++ e ++ y := drop_front (by omega)
    simp only [Option.some_or, hdrop rfl, hdrop' rfl, hdrop hlen, hdrop' hlen, find?_append,
      find?_gap he]
    rcases hm : Text.find? semicolon (a.drop n) with - | m
    · rcases hb : Text.find? semicolon b with - | m
      · rfl
      · -- the clause goes over the gap
        simp only [Option.map_some, Option.none_or]
        have hlen' : (a.drop n).length = (a'.drop n).length := by
          rw [List.length_drop, List.length_drop, hlen]
        rw [hlen', List.take_length_add_append, ← List.length_append, List.take_length_add_append,
          parseClause_gap he (hclosed n ha) (hseam n m ha hm hb)]
    · -- the clause ends in front of the gap
      have hmle : m ≤ (a'.drop n).length := by
        have hlt := Text.lt_length_of_getElem? (Text.getElem?_of_find? hm)
        rw [List.length_drop] at hlt ⊢
        omega
      simp only [Option.some_or]
      rw [List.append_assoc, List.take_append_of_le_length hmle, List.take_append_of_le_length hmle]

end

/-- Behind an offset that is outside, the quotes of closed pieces are closed. -/
theorem quotesClosed_drop {us vs : List Piece} {n : Nat}
    (h : pieces (textOf (us ++ vs)) = us ++ vs) (hclosed : ∀ p ∈ us, p.isClosed = true)
    (hout : Outside (textOf (us ++ vs)) n) :
    QuotesClosed ((us.flatMap (Piece.masked .comments)).drop n) := by
  have hmem {p : Piece} (hp : p ∈ us) : p ∈ pieces (textOf (us ++ vs)) := by
    rw [h]
    exact List.mem_append_left _ hp
  obtain ⟨ps, hps, htake⟩ := hout.pieces_eq
  have hlen : (ps.flatMap (Piece.masked .comments)).length = n := by
    have := congrArg List.length htake
    rw [List.length_take, Nat.min_eq_left hout.le_length, List.length_flatMap] at this
    simp only [this, List.length_flatMap, Piece.length_masked]
  rw [h] at hps
  rcases List.append_eq_append_iff.mp hps with ⟨l, rfl, -⟩ | ⟨l, rfl, -⟩
  · -- nothing of these pieces stands behind the offset
    rw [List.flatMap_append, List.length_append] at hlen
    rw [List.drop_eq_nil_of_le (by omega)]
    exact .nil
  · rw [List.flatMap_append, List.drop_left' hlen]
    exact QuotesClosed.flatMap fun p hp =>
      have hp := List.mem_append_right ps hp
      quotesClosed_masked (hmem hp) (hclosed p hp)

theorem isSeparator_of_isGap {c : UInt8} (h : (Piece.code c).isGap = true) :
    isSeparator c = true := by
  rcases isGap_code h with h | rfl | rfl
  · exact isSeparator_of_isBlank h
  · rfl
  · rfl

theorem find?_ne_none {t : Text} (h : semicolon ∈ t) : Text.find? semicolon t ≠ none := by
  intro hnone
  have := List.findIdx?_eq_none_iff.mp hnone semicolon h
  cases this

theorem isGap_blanked {s : Text} (hs : s ≠ []) : IsGap (blanked s) where
  ne_nil := by
    rw [← List.length_pos_iff, length_blanked]
    exact List.length_pos_iff.mpr hs
  blank b hb := by rcases isBlank_of_mem_blanked hb with rfl | rfl | rfl <;> rfl

/-- Where nothing joins between the pieces, nothing joins in the clause: a semicolon there would
end it. -/
theorem clauseSeam_of_apart {us vs : List Piece} {n m : Nat} (hus : ∀ p ∈ us, p.text ≠ [])
    (hvs : ∀ p ∈ vs, p.text ≠ []) (h : Apart us.getLast? vs.head?)
    (hnone : Text.find? semicolon ((us.flatMap (Piece.masked .commentsAndLiterals)).drop n) = none)
    (hm : Text.find? semicolon (vs.flatMap (Piece.masked .commentsAndLiterals)) = some m) :
    ClauseSeam ((us.flatMap (Piece.masked .comments)).drop n)
      ((vs.flatMap (Piece.masked .comments)).take m) := by
  rcases h with hbefore | ⟨hbehind, -⟩
  · refine .inl fun c hc => ?_
    rw [List.getLast?_drop] at hc
    split at hc
    · cases hc
    · next hlt =>
      obtain ⟨hc, hcode⟩ := last_masked hus hbefore hc
      rcases isGap_code hc with hc | hc | rfl
      · exact .inl hc
      · exact .inr hc
      · refine absurd hnone (find?_ne_none (List.mem_of_getLast? (a := semicolon) ?_))
        rw [List.getLast?_drop, hcode, if_neg]
        simpa only [List.length_flatMap, Piece.length_masked] using hlt
  · refine .inr fun c hc => ?_
    rw [List.head?_take] at hc
    split at hc
    · cases hc
    · next hm0 =>
      obtain ⟨hc, hcode⟩ := head_masked hvs hbehind hc
      rcases isGap_code hc with hc | hc | rfl
      · exact .inl hc
      · exact .inr hc
      · obtain ⟨r, hr⟩ := List.head?_eq_some_iff.mp (hcode .commentsAndLiterals)
        rw [hr] at hm
        exact absurd (Option.some.inj hm).symm hm0

/-- **The entries do not change when a comment is taken out where nothing joins**, if all literals
are closed. -/
theorem ofProgram_removes {ps qs : List Piece} (h : Removes ps qs) (hps : pieces (textOf ps) = ps)
    (hclosed : ∀ p ∈ ps, p.isClosed = true) : ofProgram (textOf qs) = ofProgram (textOf ps) := by
  have hqs := h.pieces_eq hps
  have hne {p : Piece} (hp : p ∈ ps) : p.text ≠ [] := by
    rw [← hps] at hp
    exact text_ne_nil_of_mem_pieces hp
  rw [ofProgram_eq, ofProgram_eq, overlay, clean, overlay, clean, mask_textOf hps, mask_textOf hps,
    mask_textOf hqs, mask_textOf hqs]
  cases h with
  | @comment us vs kind s hk hapart =>
    have hus : ∀ p ∈ us, p.text ≠ [] := fun p hp => hne (List.mem_append_left _ hp)
    have hvs : ∀ p ∈ vs, p.text ≠ [] := fun p hp =>
      hne (List.mem_append_right _ (List.mem_cons_of_mem _ hp))
    have hgap : IsGap (blanked s) := isGap_blanked (hne (p := .region kind s) (by simp))
    simp only [List.flatMap_append, List.flatMap_cons, masked_comment hk, ← List.append_assoc]
    refine ofOverlays_gap hgap ?_ ?_ (fun n hn => ?_) (fun n m _ => clauseSeam_of_apart hus hvs hapart)
    · simp [List.length_flatMap]
    · rcases hapart with hbefore | ⟨hbehind, -⟩
      · exact .inl fun c hc => isSeparator_of_isGap (last_masked hus hbefore hc).1
      · exact .inr fun c hc => isSeparator_of_isGap (head_masked hvs hbehind hc).1
    · -- the keyword ends outside comments and literals
      refine quotesClosed_drop hps (fun p hp => hclosed p (List.mem_append_left _ hp))
        (outside_of_findWordEnd? (by decide) isLower_of_mem_uses (n := n) ?_)
      rw [overlay, mask_textOf hps, List.flatMap_append, List.flatMap_cons, masked_comment hk,
        ← List.append_assoc, findWordEnd?_gap hgap (by decide) isLower_of_mem_uses, hn,
        Option.some_or]

/-- Any number of such comments can be taken out, one after the other. -/
theorem ofProgram_reflTransGen {ps qs : List Piece} (h : Relation.ReflTransGen Removes ps qs)
    (hps : pieces (textOf ps) = ps) (hclosed : ∀ p ∈ ps, p.isClosed = true) :
    ofProgram (textOf qs) = ofProgram (textOf ps) := by
  induction h using Relation.ReflTransGen.head_induction_on with
  | refl => rfl
  | head hstep _ ih =>
    rw [ih (hstep.pieces_eq hps) fun p hp => hclosed p (hstep.mem hp),
      ofProgram_removes hstep hps hclosed]

end PascalSurvey.Outline.UsesEntry
