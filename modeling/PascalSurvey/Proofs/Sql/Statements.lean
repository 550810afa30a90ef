/-
PascalSurvey/Proofs/Sql/Statements.lean

Where the statements of a text stand.  A text without comments is cut into parts at semicolons
that are code, so each part begins and ends outside literals (`Parts`).  A part is then trimmed,
and the words, conditions and loop heads in front of it are stripped.  Each of these cuts moves
the beginning of the statement forward to an offset that is outside and leaves its end where it
is, which is the invariant `Within`.

Main results: the statements of a text are slices of it, one behind the other
(`inOrder_statements`), and a statement that accesses the SQL lines of a component begins with a
code byte of the text (`isCode_of_access?`).
-/
import PascalSurvey.Proofs.Source.Clean
import PascalSurvey.Proofs.Source.Slice
import PascalSurvey.Proofs.Text.Fold
import PascalSurvey.Proofs.Text.Local
import PascalSurvey.Sql.Query

namespace PascalSurvey.Sql

open Ascii Source

/-! ### Parts -/

/-- Parts of a text that stand one behind the other from an offset on, with one byte between
them.  Each begins and ends outside comments and literals. -/
inductive Parts (c : Text) : Nat → List Text → Prop
  | last {o : Nat} : Outside c o → Parts c o [Text.slice c o c.length]
  | cons {o e : Nat} {ps : List Text} : Outside c o → Outside c e → o ≤ e → Parts c (e + 1) ps →
      Parts c o (Text.slice c o e :: ps)

/-- Bytes in front of the first part belong to it. -/
theorem Parts.onFirst {c : Text} {o o' : Nat} {ps : List Text} (h : Parts c o' ps)
    (ho : Outside c o) (hle : o ≤ o') : Parts c o (onFirst (Text.slice c o o') ps) := by
  cases h with
  | last ho' =>
    rw [Source.onFirst, Text.slice_append_slice c hle ho'.le_length]
    exact .last ho
  | cons ho' he hle' hps =>
    rw [Source.onFirst, Text.slice_append_slice c hle hle']
    exact .cons ho he (Nat.le_trans hle hle') hps

/-- **The parts of a text without comments are slices of it.** -/
theorem parts_partsFrom {c t : Text} (h : CommentFree t) {o : Nat} (ho : Outside c o)
    (ht : c.drop o = t) (depth : Nat) : Parts c o (Statement.partsFrom depth t) := by
  induction h generalizing o depth with
  | nil =>
    have hslice : Text.slice c o c.length = [] := by rw [Text.slice, ht, List.take_nil]
    rw [Statement.partsFrom, ← hslice]
    exact .last ho
  | @code b r hr _ ih =>
    have ho' : Outside c (o + 1) := ho.code ht hr
    have hr' : c.drop (o + 1) = r := by
      rw [← List.drop_drop, ht, List.drop_succ_cons, List.drop_zero]
    have hone : Text.slice c o (o + 1) = [b] := by
      rw [Text.slice, ht, Nat.add_sub_cancel_left, List.take_succ_cons, List.take_zero]
    have hquote : b ≠ quote := by
      rintro rfl
      cases hr
    rw [Statement.partsFrom, if_neg hquote, ← hone]
    split
    · exact (ih ho' hr' _).onFirst ho (Nat.le_succ o)
    · split
      · exact (ih ho' hr' _).onFirst ho (Nat.le_succ o)
      · split
        · -- the part ends here
          have hnone : Text.slice c o o = [] := by rw [Text.slice, Nat.sub_self, List.take_zero]
          rw [← hnone]
          exact .cons ho ho (Nat.le_refl o) (ih ho' hr' _)
        · exact (ih ho' hr' _).onFirst ho (Nat.le_succ o)
  | @literal t n hr _ ih =>
    cases opens_of_regionAt? hr with
    | literal r =>
      have hslice : Text.slice c o (o + (1 + Source.literalTail r)) =
          quote :: r.take (Source.literalTail r) := by
        rw [Text.slice, ht, Nat.add_sub_cancel_left, Nat.add_comm, List.take_succ_cons]
      rw [Statement.partsFrom, if_pos rfl]
      dsimp only
      rw [← hslice]
      have hrest : (quote :: r).drop (1 + Source.literalTail r) =
          r.drop (Source.literalTail r) := by
        rw [Nat.add_comm, List.drop_succ_cons]
      rw [← ht] at hr
      rw [hrest] at ih
      refine (ih (ho.region hr) ?_ _).onFirst ho (Nat.le_add_right _ _)
      rw [← List.drop_drop, ht, hrest]

/-! ### One statement -/

/-- A statement is a slice of a text that ends at `hi` and begins no earlier than `lo`.  It begins
outside comments and literals, and its end splits no opening pair. -/
structure Within (c : Text) (lo hi : Nat) (s : Statement) : Prop where
  lo_le : lo ≤ s.offset
  le_hi : s.offset ≤ hi
  hi_le : hi ≤ c.length
  outside : Outside c s.offset
  unsplit : Unsplit c hi
  text_eq : s.text = Text.slice c s.offset hi

/-- White space opens no region, so behind it the text is outside if it was before. -/
theorem trimStart_slice {c : Text} {s e : Nat} (hs : Outside c s) (hse : s ≤ e)
    (he : e ≤ c.length) :
    ∃ s', s ≤ s' ∧ s' ≤ e ∧ Outside c s' ∧ s' = s + Text.blankRun (Text.slice c s e) ∧
      Text.trimStart (Text.slice c s e) = Text.slice c s' e := by
  have hrun : Text.blankRun (Text.slice c s e) ≤ (Text.slice c s e).length := Utf8.run_le _ _
  refine ⟨_, Nat.le_add_right _ _, ?_, ?_, rfl, Text.drop_slice c s e _⟩
  · rw [Text.length_slice he] at hrun
    omega
  · refine hs.add_code hrun fun b hb r => ?_
    refine regionAt?_of_class (p := fun b => decide (0x80 ≤ b) || isBlankChar b.toNat) ?_ rfl r
    rw [Bool.or_eq_true, decide_eq_true_eq]
    exact Utf8.mem_take_run hb

section
variable {c : Text} {lo hi : Nat} {s : Statement}

theorem Within.length_text (h : Within c lo hi s) : s.text.length = hi - s.offset := by
  rw [h.text_eq, Text.length_slice h.hi_le]

/-- A part that is trimmed is a statement. -/
theorem within_trim {o e : Nat} (ho : Outside c o) (he : Outside c e) (hoe : o ≤ e) :
    ∃ hi ≤ e, Within c o hi
      ⟨Text.trim (Text.slice c o e), o + Text.blankRun (Text.slice c o e)⟩ := by
  obtain ⟨s, hos, hse, hs, hs', htrim⟩ := trimStart_slice ho hoe he.le_length
  obtain ⟨hi, hie, hshi, hsplit, htrim'⟩ := trimEnd_slice he hse
  refine ⟨hi, hie, ?_⟩
  rw [← hs', Text.trim, htrim, htrim']
  exact ⟨hos, hshi, Nat.le_trans hie he.le_length, hs, hsplit, rfl⟩

/-- A statement from which the bytes before an offset that is outside are taken off. -/
theorem Within.advance (h : Within c lo hi s) {k : Nat} (hk : k ≤ s.text.length)
    (hout : Outside c (s.offset + k)) : Within c lo hi (s.advance (s.text.drop k)) := by
  have hlen := h.length_text
  have hlo := h.lo_le
  have hle := h.le_hi
  obtain ⟨s', hs, hs', hout', -, htrim⟩ :=
    trimStart_slice hout (by omega : s.offset + k ≤ hi) h.hi_le
  have hdrop : s.text.drop k = Text.slice c (s.offset + k) hi := by
    rw [h.text_eq, Text.drop_slice]
  have hoffset : s.offset + (s.text.length - (Text.slice c s' hi).length) = s' := by
    rw [Text.length_slice h.hi_le]
    omega
  rw [Statement.advance, hdrop, htrim]
  simp only [hoffset]
  exact ⟨(by omega : lo ≤ s'), hs', h.hi_le, hout', h.unsplit, rfl⟩

/-! ### What is stripped -/

theorem afterWord?_eq_some {word t rest : Text} (h : Statement.afterWord? word t = some rest) :
    Text.toLower (t.take word.length) = Text.toLower word ∧ rest = t.drop word.length := by
  rw [Statement.afterWord?, Text.afterFold?] at h
  split at h
  · next rest' hafter =>
    split at hafter
    · next hfold =>
      obtain rfl := Option.some.inj hafter
      split at h
      · cases h
      · exact ⟨Text.eqFold_iff.mp hfold, (Option.some.inj h).symm⟩
    · cases hafter
  · cases h

/-- Behind a leading word the text is outside, because letters open no region. -/
theorem Within.dropWord (h : Within c lo hi s) {word : Text}
    (hword : ∀ w ∈ word, isLower w = true) : Within c lo hi (s.dropWord word) := by
  rw [Statement.dropWord]
  split
  · next rest hrest =>
    obtain ⟨hfold, rfl⟩ := afterWord?_eq_some hrest
    rw [toLower_of_isLower hword] at hfold
    have hlen : word.length ≤ s.text.length := by
      have := congrArg List.length hfold
      rw [Text.toLower, List.length_map, List.length_take] at this
      omega
    refine h.advance hlen (h.outside.add_code (e := hi) (h.text_eq ▸ hlen) fun b hb r => ?_)
    rw [← h.text_eq] at hb
    exact regionAt?_of_class (isLetter_of_toLower hfold hword b hb) rfl r
  · exact h

/-- The guard of a statement ends with a word. -/
theorem guardEnd?_eq_some {t : Text} {n : Nat} (h : Statement.guardEnd? t = some n) :
    ∃ k b, n = k + 1 ∧ t[k]? = some b ∧ isIdentByte b = true := by
  fun_induction Statement.guardEnd? t generalizing n with
  | case1 => cases h
  | case2 b r m hb =>
    obtain rfl := Option.some.inj h
    have hlt : m < ((b :: r).takeWhile isIdentByte).length := by
      rw [List.takeWhile_cons_of_pos hb]
      exact Nat.lt_succ_self m
    obtain ⟨x, hx, hident⟩ := Text.getElem?_of_lt_takeWhile hlt
    exact ⟨m, x, rfl, hx, hident⟩
  | case3 b r m hb =>
    rename_i ih
    obtain ⟨n', hn', rfl⟩ := Option.map_eq_some_iff.mp h
    obtain ⟨k, x, rfl, hx, hident⟩ := ih hn'
    rw [List.getElem?_drop] at hx
    exact ⟨m + k + 1, x, by omega, by simpa using hx, hident⟩
  | case4 b r hb ih =>
    obtain ⟨n', hn', rfl⟩ := Option.map_eq_some_iff.mp h
    obtain ⟨k, x, rfl, hx, hident⟩ := ih hn'
    exact ⟨k + 1, x, rfl, by simpa using hx, hident⟩

/-- The word that ends a guard is code, so behind it the text is outside. -/
theorem Within.dropGuard (h : Within c lo hi s) : Within c lo hi s.dropGuard := by
  rw [Statement.dropGuard]
  split
  · split
    · next n hend =>
      obtain ⟨k, b, rfl, hb, hident⟩ := guardEnd?_eq_some hend
      have hlt : k < s.text.length := by
        have := (List.getElem?_eq_some_iff.mp hb).1
        rwa [length_mask] at this
      have hcode : isCode s.text k = true :=
        isCode_of_not_filler hb (not_isFiller_of_class hident rfl)
      rw [h.text_eq, isCode_slice h.outside h.unsplit (by have := h.length_text; omega)] at hcode
      exact h.advance hlt (outside_of_isCode hcode).2
    · exact h
  · exact h

/-- **Stripping takes off the front of a statement**, up to an offset that is outside. -/
theorem Within.strip (h : Within c lo hi s) : Within c lo hi s.strip := by
  have hfold {s : Statement} (h : Within c lo hi s) :
      Within c lo hi (Statement.leadingWords.foldl Statement.dropWord s) := by
    refine List.foldlRecOn (motive := Within c lo hi) _ _ h ?_
    intro s h word hmem
    exact h.dropWord (Statement.isLower_of_mem_leadingWords hmem)
  fun_induction Statement.strip s with
  | case1 s next _ ih => exact ih (hfold h).dropGuard
  | case2 s next _ => exact (hfold h).dropGuard

end

/-! ### All statements -/

/-- The statements of a source text, without comments and without the words that lead to
them. -/
def statements (source : Text) : List Statement :=
  (Statement.split (clean source)).map Statement.strip

/-- Statements of a text behind an offset, one behind the other. -/
structure InOrder (c : Text) (lo : Nat) (ss : List Statement) : Prop where
  within : ∀ s ∈ ss, ∃ hi, Within c lo hi s
  ordered : ss.Pairwise fun a b => a.offset + a.text.length < b.offset

theorem InOrder.mono {c : Text} {lo lo' : Nat} {ss : List Statement} (h : InOrder c lo ss)
    (hle : lo' ≤ lo) : InOrder c lo' ss := by
  refine ⟨fun s hs => ?_, h.ordered⟩
  obtain ⟨hi, hw⟩ := h.within s hs
  exact ⟨hi, { hw with lo_le := Nat.le_trans hle hw.lo_le }⟩

theorem InOrder.cons {c : Text} {o hi lo : Nat} {s : Statement} {ss : List Statement}
    (hs : Within c o hi s) (hlt : hi < lo) (h : InOrder c lo ss) : InOrder c o (s :: ss) := by
  have hlo := hs.lo_le
  have hle := hs.le_hi
  have hlen := hs.length_text
  constructor
  · intro s' hs'
    rcases List.mem_cons.mp hs' with rfl | hs'
    · exact ⟨hi, hs⟩
    · exact (h.mono (by omega)).within s' hs'
  · refine List.pairwise_cons.mpr ⟨fun s' hs' => ?_, h.ordered⟩
    obtain ⟨hi', hw⟩ := h.within s' hs'
    have := hw.lo_le
    omega

/-- The parts give their statements in order. -/
theorem Parts.inOrder {c : Text} {o : Nat} {ps : List Text} (h : Parts c o ps) :
    InOrder c o ((Statement.ofParts o ps).map Statement.strip) := by
  induction h with
  | @last o ho =>
    obtain ⟨hi, -, hs⟩ := within_trim ho (outside_length c) ho.le_length
    rw [Statement.ofParts, Statement.ofParts]
    split
    · exact ⟨by simp, .nil⟩
    · exact .cons hs.strip (Nat.lt_succ_self hi) ⟨by simp, .nil⟩
  | @cons o e ps ho he hoe _ ih =>
    obtain ⟨hi, hle, hs⟩ := within_trim ho he hoe
    rw [Statement.ofParts, Text.length_slice he.le_length, Nat.add_sub_cancel' hoe]
    split
    · exact ih.mono (by omega)
    · exact .cons hs.strip (Nat.lt_succ_of_le hle) ih

/-- **The statements of a text are slices of it**, one behind the other. -/
theorem inOrder_statements (source : Text) : InOrder (clean source) 0 (statements source) :=
  (parts_partsFrom (commentFree_clean source) (outside_zero _) rfl 0).inOrder

/-! ### Statements on components -/

/-- The bytes that a component begins with: letters and the underscore, and the first bytes of
the two characters that are letters when case is ignored. -/
def beginsComponent (b : UInt8) : Bool := isIdentStart b || b == 0xC5 || b == 0xE2

theorem head_of_access? {member t : Text} {a : Access} (h : access? member t = some a) :
    ∃ b r, t = b :: r ∧ beginsComponent b = true := by
  rw [access?] at h
  generalize Utf8.run (fun c => isWordChar c || c == 0x2E) t = n at h
  obtain ⟨⟨owner, name⟩, howner, h⟩ := Option.bind_eq_some_iff.mp h
  obtain ⟨⟨component, property⟩, hcomponent, h⟩ := Option.bind_eq_some_iff.mp h
  have htake := Text.cutLast?_eq_some howner
  rw [Text.cutLast?_eq_some hcomponent] at htake
  dsimp only at h
  split at h
  · next hcond =>
    rw [Bool.and_eq_true] at hcond
    have hstart := hcond.2
    cases component with
    | nil => cases hstart
    | cons b r =>
      have ht := (List.take_append_drop n t).symm
      rw [htake] at ht
      refine ⟨b, _, ht, ?_⟩
      rw [Text.identStartFold?_cons] at hstart
      split at hstart
      · next hb => simp [beginsComponent, hb.1]
      · split at hstart
        · next hb => simp [beginsComponent, hb.1]
        · split at hstart
          · next hb => simp [beginsComponent, hb]
          · cases hstart
  · cases h

/-- **A statement on a component begins with code** of the source text. -/
theorem isCode_of_access? {source : Text} {lo hi : Nat} {s : Statement} {member : Text}
    {a : Access} (hs : Within (clean source) lo hi s) (h : access? member s.text = some a) :
    isCode source s.offset = true := by
  obtain ⟨b, r, htext, hb⟩ := head_of_access? h
  have hhead : (clean source)[s.offset]? = some b := by
    have hslice : (Text.slice (clean source) s.offset hi)[0]? = some b := by
      rw [← hs.text_eq, htext]
      rfl
    rw [Text.slice, List.getElem?_take] at hslice
    split at hslice
    · rwa [List.getElem?_drop, Nat.add_zero] at hslice
    · cases hslice
  have hcode : isCode (clean source) s.offset = true :=
    hs.outside.isCode (Text.drop_of_getElem? hhead) (regionAt?_of_class hb rfl _)
  exact isCode_of_clean hcode hhead (not_isFiller_of_class hb rfl)

end PascalSurvey.Sql
