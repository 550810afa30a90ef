/-
PascalSurvey/Proofs/Routine/Grammar.lean

The grammar of routine bodies, and that the walk recognises it.  A body is read off the code
words of a text:

    routine      ::=  declaration*  open  block  end
    declaration  ::=  plain  |  end  |  bodiless header  |  header routine
    block        ::=  ( plain  |  open  block  end )*

where `open` is one of `begin`, `try`, `case` and `asm`, a plain word is neither a block word
nor the beginning of a header, and the headers are those of procedures and functions without
a class.  A header stands for all code words up to its end, and a bodiless one also for those
of its directives.

Main result: from any offset that is not inside a comment or a literal, the walk finds a
closing `end` exactly if the code words from there on begin with a routine, and it stops
behind the last word of that routine (`scan_terminated_iff_isRoutine`).

The walk keeps two numbers, the open blocks of the current routine and the routines that wait
for a nested one.  `Rest` says what these numbers demand of the words that are left; each word
takes the walk from one demand to the next (`rest_of_terminated`).  The other direction
follows the derivation (`readsRoutine`).
-/
import PascalSurvey.Proofs.Routine.Walk

namespace PascalSurvey.Routine.Body

open Ascii Source

/-! ### Code words -/

/-- Whether a code word starts at an offset: an identifier outside comments and literals that
follows no identifier byte, no dot and no ampersand. -/
def isCodeWord (t : Text) (i : Nat) : Bool :=
  isCode t i && (t[i]?).any isIdentStart && !(byteBefore? t i).any binds

/-- Where the code words of a text between two offsets start. -/
def codeWords (t : Text) (a b : Nat) : List Nat := (List.range' a (b - a)).filter (isCodeWord t)

theorem isCodeWord_eq_wordStart (t : Text) (i : Nat) :
    isCodeWord t i = wordStart (overlay t) i := by
  cases hcode : isCode t i with
  | true =>
    obtain ⟨hout, b, r, hd, hbr⟩ := code_of_isCode hcode
    rw [wordStart_overlay hout hd hbr, isCodeWord, hcode, Text.getElem?_of_drop hd]
    rfl
  | false =>
    rw [isCodeWord, hcode]
    rcases hc : (overlay t)[i]? with - | c
    · simp [wordStart, hc]
    · rw [wordStart_of_isFiller hc (isFiller_of_not_isCode hcode hc)]
      rfl

theorem codeWords_eq_words (t : Text) (a b : Nat) : codeWords t a b = words (overlay t) a b := by
  unfold codeWords words
  congr 1
  funext i
  exact isCodeWord_eq_wordStart t i

/-! ### The grammar -/

/-- A code word that is neither a block word nor the beginning of a header. -/
inductive IsPlain (t : Text) : Nat → Prop
  | other {q : Nat} : wordAt (overlay t) q = .other → IsPlain t q
  | classWord {q : Nat} : wordAt (overlay t) q = .classWord → IsPlain t q
  | keyword {q : Nat} {kind : Kind} : wordAt (overlay t) q = .routine kind →
      Header.parseAt? (overlay t) q = none → IsPlain t q

/-- The header `h` of a procedure or function without a class begins at `q`. -/
def Nests (t : Text) (q : Nat) (h : Header) : Prop :=
  ∃ kind, wordAt (overlay t) q = .routine kind ∧ nestable kind = true ∧
    Header.parseAt? (overlay t) q = some h ∧ h.isQualified = false

/-- The words between an opening word and its `end`. -/
inductive IsBlock (t : Text) : List Nat → Prop
  | nil : IsBlock t []
  | plain {q : Nat} {ws : List Nat} : IsPlain t q → IsBlock t ws → IsBlock t (q :: ws)
  | nested {o c : Nat} {bs ws : List Nat} : wordAt (overlay t) o = .opener → IsBlock t bs →
      wordAt (overlay t) c = .closer → IsBlock t ws → IsBlock t (o :: bs ++ c :: ws)

mutual

/-- One declaration before the block of a routine. -/
inductive IsDeclaration (t : Text) : List Nat → Prop
  | plain {q : Nat} : IsPlain t q → IsDeclaration t [q]
  | stray {q : Nat} : wordAt (overlay t) q = .closer → IsDeclaration t [q]
  | bodiless {q : Nat} {h : Header} : Nests t q h → h.declarationOnly = true →
      IsDeclaration t (q :: codeWords t (q + 1) h.directivesEnd)
  | nested {q : Nat} {h : Header} {ws : List Nat} : Nests t q h → h.declarationOnly = false →
      IsRoutine t ws → IsDeclaration t (q :: codeWords t (q + 1) h.stop ++ ws)

/-- The declarations and the block of a routine. -/
inductive IsRoutine (t : Text) : List Nat → Prop
  | block {o c : Nat} {bs : List Nat} : wordAt (overlay t) o = .opener → IsBlock t bs →
      wordAt (overlay t) c = .closer → IsRoutine t (o :: bs ++ [c])
  | declare {ds ws : List Nat} : IsDeclaration t ds → IsRoutine t ws → IsRoutine t (ds ++ ws)

end

/-! ### What is left to read -/

/-- What a walk with `depth` open blocks and `suspended` waiting routines still has to read:
the rest of each open block with its `end`, and then a routine for each that waits. -/
inductive Rest (t : Text) : (depth suspended : Nat) → List Nat → Prop
  | routine {ws : List Nat} : IsRoutine t ws → Rest t 0 0 ws
  | resume {n : Nat} {rs ws : List Nat} : IsRoutine t rs → Rest t 0 n ws → Rest t 0 (n + 1) (rs ++ ws)
  | last {c : Nat} {bs : List Nat} : IsBlock t bs → wordAt (overlay t) c = .closer →
      Rest t 1 0 (bs ++ [c])
  | close {n c : Nat} {bs ws : List Nat} : IsBlock t bs → wordAt (overlay t) c = .closer →
      Rest t 0 n ws → Rest t 1 (n + 1) (bs ++ c :: ws)
  | inner {d n c : Nat} {bs ws : List Nat} : IsBlock t bs → wordAt (overlay t) c = .closer →
      Rest t (d + 1) n ws → Rest t (d + 2) n (bs ++ c :: ws)

variable {t : Text}

/-- A plain word may stand anywhere. -/
theorem Rest.plain {d n q : Nat} {ws : List Nat} (hq : IsPlain t q) (h : Rest t d n ws) :
    Rest t d n (q :: ws) := by
  cases h with
  | routine hr => exact .routine (.declare (.plain hq) hr)
  | resume hr hrest => exact .resume (.declare (.plain hq) hr) hrest
  | last hb hc => exact .last (.plain hq hb) hc
  | close hb hc hr => exact .close (.plain hq hb) hc hr
  | inner hb hc hr => exact .inner (.plain hq hb) hc hr

/-- Before its block a routine may have one more declaration. -/
theorem Rest.declare {n : Nat} {ds ws : List Nat} (hd : IsDeclaration t ds) (h : Rest t 0 n ws) :
    Rest t 0 n (ds ++ ws) := by
  cases h with
  | routine hr => exact .routine (.declare hd hr)
  | resume hr hrest =>
    rw [← List.append_assoc]
    exact .resume (.declare hd hr) hrest

/-- A routine that is nested behind its header is a declaration of the one that waits. -/
theorem Rest.nested {n q : Nat} {h : Header} {ws : List Nat} (hq : Nests t q h)
    (hbody : h.declarationOnly = false) (hrest : Rest t 0 (n + 1) ws) :
    Rest t 0 n (q :: codeWords t (q + 1) h.stop ++ ws) := by
  cases hrest with
  | resume hr hrest =>
    rw [← List.append_assoc]
    exact hrest.declare (.nested hq hbody hr)

/-- An `end` is a declaration of its own before a block, and in a block in a block it closes
that one. -/
theorem Rest.closer {d n c : Nat} {ws : List Nat} (hc : wordAt (overlay t) c = .closer)
    (hd : d ≠ 1) (h : Rest t (d - 1) n ws) : Rest t d n (c :: ws) := by
  match d with
  | 0 => exact h.declare (.stray hc)
  | 1 => exact absurd rfl hd
  | d + 2 => exact .inner .nil hc h

/-- An opening word begins the block of a routine or a block in a block. -/
theorem Rest.opener {d n o : Nat} {ws : List Nat} (ho : wordAt (overlay t) o = .opener)
    (h : Rest t (d + 1) n ws) : Rest t d n (o :: ws) := by
  cases h with
  | last hb hc => exact .routine (.block ho hb hc)
  | @close n c bs ws hb hc hr =>
    have := Rest.resume (.block ho hb hc) hr
    simpa using this
  | @inner d n c bs ws hb hc hr =>
    -- the block that ends here is part of the one around it
    cases hr with
    | last hb' hc' => simpa using Rest.last (.nested ho hb hc hb') hc'
    | close hb' hc' hr' => simpa using Rest.close (.nested ho hb hc hb') hc' hr'
    | inner hb' hc' hr' => simpa using Rest.inner (.nested ho hb hc hb') hc' hr'

/-! ### One word at a time

What the walk does with the first of the words that are left, one rule for each kind of
word.  A rule says where the walk goes on and how many blocks and routines are then open. -/

section Rules

variable {p q : Nat} {vs : List Nat}

theorem headerAt_eq {kind : Kind} (hq : q < t.length)
    (hw : wordAt (overlay t) q = .routine kind) :
    headerAt (overlay t) q = Header.parseAt? (overlay t) q := by
  have hle : q ≤ (overlay t).length := by
    rw [length_mask]
    omega
  rw [headerAt, hw, Header.parseAt?, if_pos hle]

/-- The state behind the word at `q`, with `d` open blocks and `n` waiting routines. -/
def State.behind (m : Text) (q d n : Nat) : State :=
  ⟨d, n, if wordAt m q = .classWord then some q else none⟩

theorem walkAt_opener (hout : Outside t p) (hw : words (overlay t) p t.length = q :: vs)
    (hword : wordAt (overlay t) q = .opener) (s : State) :
    walkAt t p s = walkAt t (wordEnd (overlay t) q)
      (State.behind (overlay t) q (s.depth + 1) s.suspended) := by
  obtain ⟨-, -, -, -, -, -, hwalk⟩ := walkAt_cons hout hw s
  rw [hwalk, hword]
  simp [afterWord, Move.result, State.behind, hword]

theorem walkAt_plain (hout : Outside t p) (hw : words (overlay t) p t.length = q :: vs)
    (hq : IsPlain t q) (s : State) :
    walkAt t p s = walkAt t (wordEnd (overlay t) q)
      (State.behind (overlay t) q s.depth s.suspended) := by
  obtain ⟨hlt, -, -, -, -, -, hwalk⟩ := walkAt_cons hout hw s
  rw [hwalk]
  cases hq with
  | other hword | classWord hword =>
    rw [hword]
    simp [afterWord, Move.result, State.behind, hword]
  | keyword hword hnone =>
    rw [headerAt_eq hlt hword, hword, hnone]
    simp [afterWord, Move.result, State.behind, hword]

/-- An `end` before the block counts for nothing, and one in a block in a block closes it. -/
theorem walkAt_closer (hout : Outside t p) (hw : words (overlay t) p t.length = q :: vs)
    (hword : wordAt (overlay t) q = .closer) {s : State} (hs : s.depth ≠ 1) :
    walkAt t p s = walkAt t (wordEnd (overlay t) q)
      (State.behind (overlay t) q (s.depth - 1) s.suspended) := by
  obtain ⟨-, -, -, -, -, -, hwalk⟩ := walkAt_cons hout hw s
  rw [hwalk, hword, afterWord]
  rcases Nat.lt_or_ge 1 s.depth with hd | hd
  · simp [hd, Move.result, State.behind, hword]
  · obtain hd : s.depth = 0 := by omega
    simp [hd, Move.result, State.behind, hword]

/-- The end of a routine: the walk stops, or a routine that waits goes on. -/
def finish (t : Text) (e : Nat) : (suspended : Nat) → BodyScan
  | 0 => ⟨e, true, true⟩
  | n + 1 => walkAt t e (State.fresh n)

/-- An `end` closes the block of a routine. -/
theorem walkAt_last (hout : Outside t p) (hw : words (overlay t) p t.length = q :: vs)
    (hword : wordAt (overlay t) q = .closer) {s : State} (hs : s.depth = 1) :
    walkAt t p s = finish t (closeAt (overlay t) (wordEnd (overlay t) q)) s.suspended := by
  obtain ⟨-, -, -, -, hend, -, hwalk⟩ := walkAt_cons hout hw s
  rw [hword, afterWord] at hwalk
  simp only [State.across_depth, hs, Nat.lt_irrefl, if_false, Nat.one_ne_zero, closeAt_eq hend,
    State.across_suspended] at hwalk
  rw [hwalk]
  cases s.suspended <;> rfl

theorem Nests.headerAt_located {h : Header} (hq : q < t.length) (hn : Nests t q h) :
    headerAt (overlay t) q = some h ∧ h.keywordStart = q ∧ h.isClassMethod = false ∧
      h.Located (overlay t) := by
  obtain ⟨kind, hword, -, hparse, -⟩ := hn
  rw [← headerAt_eq hq hword] at hparse
  obtain ⟨-, hkey, hclass, hloc⟩ := Body.headerAt_located (by rw [length_mask]; omega) hparse
  exact ⟨hparse, hkey, hclass, hloc⟩

theorem Nests.located {h : Header} (hq : q < t.length) (hn : Nests t q h) :
    q < h.stop ∧ h.stop ≤ h.directivesEnd ∧ h.directivesEnd ≤ t.length ∧ Outside t h.stop ∧
      Outside t h.directivesEnd := by
  obtain ⟨-, hkey, -, hloc⟩ := hn.headerAt_located hq
  have hlt := hloc.keyword_lt
  have hle := hloc.end_le
  rw [length_mask] at hle
  exact ⟨by omega, hloc.stop_le, hle, hloc.outside_stop, hloc.outside_directivesEnd⟩

/-- A bodiless header is passed over with its directives. -/
theorem walkAt_bodiless (hout : Outside t p) (hw : words (overlay t) p t.length = q :: vs)
    {h : Header} (hn : Nests t q h) (hbody : h.declarationOnly = true) {s : State}
    (hs : s.depth = 0) :
    walkAt t p s = walkAt t h.directivesEnd ⟨0, s.suspended, none⟩ := by
  obtain ⟨hq, -, -, -, -, -, hwalk⟩ := walkAt_cons hout hw s
  obtain ⟨hheader, -, hclass, -⟩ := hn.headerAt_located hq
  obtain ⟨-, -, hle, -, -⟩ := hn.located hq
  obtain ⟨kind, hword, hkind, -, hqual⟩ := hn
  rw [hwalk, hword, hheader, afterWord]
  simp [hclass, hqual, hs, hkind, hbody, Nat.min_eq_left hle, Move.result]

/-- A header with a body suspends the routine around it. -/
theorem walkAt_nested (hout : Outside t p) (hw : words (overlay t) p t.length = q :: vs)
    {h : Header} (hn : Nests t q h) (hbody : h.declarationOnly = false) {s : State}
    (hs : s.depth = 0) :
    walkAt t p s = walkAt t h.stop (State.fresh (s.suspended + 1)) := by
  obtain ⟨hq, -, -, -, -, -, hwalk⟩ := walkAt_cons hout hw s
  obtain ⟨hheader, -, hclass, -⟩ := hn.headerAt_located hq
  obtain ⟨-, hstop, hle, -, -⟩ := hn.located hq
  obtain ⟨kind, hword, hkind, -, hqual⟩ := hn
  rw [hwalk, hword, hheader, afterWord]
  simp [hclass, hqual, hs, hkind, hbody, Nat.min_eq_left (Nat.le_trans hstop hle), Move.result]

/-- The header `h` at `q` cannot be part of a body with `d` open blocks. -/
def Cuts (t : Text) (q : Nat) (h : Header) (d : Nat) : Prop :=
  ∃ kind, wordAt (overlay t) q = .routine kind ∧ Header.parseAt? (overlay t) q = some h ∧
    (h.isQualified = true ∨ nestable kind = false ∨ 0 < d)

theorem walkAt_cut (hout : Outside t p) (hw : words (overlay t) p t.length = q :: vs)
    {h : Header} {s : State} (hcut : Cuts t q h s.depth) :
    walkAt t p s = ((s.across (overlay t) p q).cut
      ((s.across (overlay t) p q).pendingClass.getD q)).result t := by
  obtain ⟨hq, -, -, -, -, -, hwalk⟩ := walkAt_cons hout hw s
  obtain ⟨kind, hword, hparse, hwhy⟩ := hcut
  rw [← headerAt_eq hq hword] at hparse
  have hcond : (h.isClassMethod || h.isQualified || decide (0 < (s.across (overlay t) p q).depth) ||
      !nestable kind) = true := by
    rcases hwhy with hwhy | hwhy | hwhy <;> simp [hwhy]
  rw [hword, hparse, afterWord] at hwalk
  simp only [hcond, if_true] at hwalk
  exact hwalk

/-- There is a rule for every word. -/
theorem word_cases (t : Text) (q d : Nat) :
    wordAt (overlay t) q = .opener ∨ wordAt (overlay t) q = .closer ∨ IsPlain t q ∨
      (∃ h, Nests t q h ∧ d = 0) ∨ ∃ h, Cuts t q h d := by
  cases hword : wordAt (overlay t) q with
  | opener => exact .inl rfl
  | closer => exact .inr (.inl rfl)
  | classWord => exact .inr (.inr (.inl (.classWord hword)))
  | other => exact .inr (.inr (.inl (.other hword)))
  | routine kind =>
    rcases hparse : Header.parseAt? (overlay t) q with - | h
    · exact .inr (.inr (.inl (.keyword hword hparse)))
    · cases hqual : h.isQualified with
      | true => exact .inr (.inr (.inr (.inr ⟨h, kind, hword, hparse, .inl hqual⟩)))
      | false =>
        cases hkind : nestable kind with
        | false => exact .inr (.inr (.inr (.inr ⟨h, kind, hword, hparse, .inr (.inl hkind)⟩)))
        | true =>
          rcases Nat.eq_zero_or_pos d with hd | hd
          · exact .inr (.inr (.inr (.inl ⟨h, ⟨kind, hword, hkind, hparse, hqual⟩, hd⟩)))
          · exact .inr (.inr (.inr (.inr ⟨h, kind, hword, hparse, .inr (.inr hd)⟩)))

end Rules

/-! ### Accepting walks have a derivation -/

theorem getLast?_append_of_some {ws : List Nat} {c : Nat} (vs : List Nat)
    (h : ws.getLast? = some c) : (vs ++ ws).getLast? = some c := by
  rw [List.getLast?_append, h]
  rfl

/-- The words behind the header that begins at the first of the words. -/
theorem words_header {q b : Nat} (hstart : wordStart (overlay t) q = true)
    (hend : wordEnd (overlay t) q ≤ t.length) (hq : q < b) (hb : b ≤ t.length) :
    words (overlay t) (wordEnd (overlay t) q) t.length =
      codeWords t (q + 1) b ++ words (overlay t) b t.length := by
  rw [← words_succ hstart hend, codeWords_eq_words, words_append _ hq hb]

/-- **Soundness.**  If the walk finds a closing `end`, the words it read are what its state
demanded, and it stops behind the last of them. -/
theorem rest_of_terminated {p : Nat} (hout : Outside t p) (s : State)
    (h : (walkAt t p s).terminated = true) :
    ∃ ws vs c, words (overlay t) p t.length = ws ++ vs ∧ Rest t s.depth s.suspended ws ∧
      ws.getLast? = some c ∧ (walkAt t p s).stop = closeAt (overlay t) (wordEnd (overlay t) c) := by
  induction hlen : t.length - p using Nat.strongRecOn generalizing p s with
  | ind n ih =>
    subst hlen
    rcases hw : words (overlay t) p t.length with - | ⟨q, vs⟩
    · rw [walkAt_eq hout, atNextWord, hw] at h
      cases h
    · obtain ⟨hq, hpq, hlt, hstart, hend, rfl, -⟩ := walkAt_cons hout hw s
      -- every rule but one goes on behind the word
      have next {p' : Nat} {s' : State} (hwalk : walkAt t p s = walkAt t p' s') (hp' : p < p')
          (hout' : Outside t p') :
          ∃ ws vs c, words (overlay t) p' t.length = ws ++ vs ∧ Rest t s'.depth s'.suspended ws ∧
            ws.getLast? = some c ∧
            (walkAt t p s).stop = closeAt (overlay t) (wordEnd (overlay t) c) := by
        rw [hwalk] at h ⊢
        exact ih (t.length - p') (by omega) hout' s' h rfl
      rcases word_cases t q s.depth with hword | hword | hplain | ⟨hd, hn, hdepth⟩ | ⟨hd, hcut⟩
      · -- one more block is to be closed
        obtain ⟨ws, vs, c, hws, hrest, hlast, hstop⟩ :=
          next (walkAt_opener hout hw hword s) (by omega) hend
        exact ⟨q :: ws, vs, c, by rw [hws]; rfl, hrest.opener hword,
          getLast?_append_of_some [q] hlast, hstop⟩
      · by_cases hdepth : s.depth = 1
        · have hwalk := walkAt_last hout hw hword hdepth
          rw [hdepth]
          rcases hn : s.suspended with - | n
          · -- the outermost routine ends here
            rw [hn] at hwalk
            exact ⟨[q], _, q, rfl, .last .nil hword, rfl, by rw [hwalk]; rfl⟩
          · -- a nested routine ends here, and the one around it goes on
            rw [hn] at hwalk
            have hle := le_closeAt (overlay t) (wordEnd (overlay t) q)
            have hout' := closeAt_outside hend
            obtain ⟨ws, vs, c, hws, hrest, hlast, hstop⟩ := next hwalk (by omega) hout'
            rw [words_skip hle hout'.le_length (words_closeAt _ _), hws]
            exact ⟨q :: ws, vs, c, rfl, .close .nil hword hrest,
              getLast?_append_of_some [q] hlast, hstop⟩
        · obtain ⟨ws, vs, c, hws, hrest, hlast, hstop⟩ :=
            next (walkAt_closer hout hw hword hdepth) (by omega) hend
          exact ⟨q :: ws, vs, c, by rw [hws]; rfl, hrest.closer hword hdepth,
            getLast?_append_of_some [q] hlast, hstop⟩
      · obtain ⟨ws, vs, c, hws, hrest, hlast, hstop⟩ :=
          next (walkAt_plain hout hw hplain s) (by omega) hend
        exact ⟨q :: ws, vs, c, by rw [hws]; rfl, hrest.plain hplain,
          getLast?_append_of_some [q] hlast, hstop⟩
      · -- a header stands for all words up to its end
        obtain ⟨hqstop, hstopend, hle, hout₁, hout₂⟩ := hn.located hq
        rw [hdepth]
        cases hbody : hd.declarationOnly with
        | true =>
          obtain ⟨ws, vs, c, hws, hrest, hlast, hstop⟩ :=
            next (walkAt_bodiless hout hw hn hbody hdepth) (by omega) hout₂
          rw [words_header hstart hend.le_length (b := hd.directivesEnd) (by omega) hle, hws]
          exact ⟨q :: codeWords t (q + 1) hd.directivesEnd ++ ws, vs, c, by simp,
            hrest.declare (.bodiless hn hbody), getLast?_append_of_some _ hlast, hstop⟩
        | false =>
          obtain ⟨ws, vs, c, hws, hrest, hlast, hstop⟩ :=
            next (walkAt_nested hout hw hn hbody hdepth) (by omega) hout₁
          rw [words_header hstart hend.le_length hqstop (by omega), hws]
          exact ⟨q :: codeWords t (q + 1) hd.stop ++ ws, vs, c, by simp,
            hrest.nested hn hbody, getLast?_append_of_some _ hlast, hstop⟩
      · -- a walk that is cut finds no closing `end`
        rw [walkAt_cut hout hw hcut] at h
        cases h

/-! ### Derivations are walked through -/

/-- What stands in a block is read with the block open. -/
theorem walkAt_isBlock {bs : List Nat} (hb : IsBlock t bs) {p : Nat} (hout : Outside t p)
    {vs : List Nat} (hw : words (overlay t) p t.length = bs ++ vs) {s : State} (hs : 0 < s.depth) :
    ∃ p' s', Outside t p' ∧ words (overlay t) p' t.length = vs ∧ s'.depth = s.depth ∧
      s'.suspended = s.suspended ∧ walkAt t p s = walkAt t p' s' := by
  induction hb generalizing p s vs with
  | nil => exact ⟨p, s, hout, hw, rfl, rfl, rfl⟩
  | @plain q ws hq hb ih =>
    obtain ⟨-, -, -, -, hend, hvs, -⟩ := walkAt_cons hout hw s
    rw [walkAt_plain hout hw hq s]
    exact ih hend hvs.symm (s := State.behind (overlay t) q s.depth s.suspended) hs
  | @nested o c bs ws ho hb hc hws ihb ihw =>
    have hw₁ : words (overlay t) p t.length = o :: (bs ++ (c :: ws ++ vs)) := by simpa using hw
    obtain ⟨-, -, -, -, hend₁, hvs₁, -⟩ := walkAt_cons hout hw₁ s
    obtain ⟨p₂, s₂, hout₂, hw₂, hd₂, hn₂, hwalk₂⟩ := ihb hend₁ hvs₁.symm
      (s := State.behind (overlay t) o (s.depth + 1) s.suspended) (Nat.succ_pos _)
    -- the inner block leaves its own block open, so its `end` closes only that one
    have hdepth : s₂.depth = s.depth + 1 := hd₂
    obtain ⟨-, -, -, -, hend₂, hvs₂, -⟩ := walkAt_cons hout₂ hw₂ s₂
    obtain ⟨p₃, s₃, hout₃, hw₃, hd₃, hn₃, hwalk₃⟩ := ihw hend₂ hvs₂.symm
      (s := State.behind (overlay t) c (s₂.depth - 1) s₂.suspended)
      (show 0 < s₂.depth - 1 by omega)
    refine ⟨p₃, s₃, hout₃, hw₃, ?_, hn₃.trans hn₂, ?_⟩
    · rw [hd₃]
      show s₂.depth - 1 = s.depth
      omega
    · rw [walkAt_opener hout hw₁ ho s, hwalk₂,
        walkAt_closer hout₂ hw₂ hc (by omega), hwalk₃]

/-- The walk reads `ds` before the block of a routine and goes on. -/
def ReadsDeclaration (t : Text) (ds : List Nat) : Prop :=
  ∀ {p : Nat} {vs : List Nat} {s : State}, Outside t p →
    words (overlay t) p t.length = ds ++ vs → s.depth = 0 →
    ∃ p' s', Outside t p' ∧ words (overlay t) p' t.length = vs ∧ s'.depth = 0 ∧
      s'.suspended = s.suspended ∧ walkAt t p s = walkAt t p' s'

/-- The walk reads `rs` to the last word, and a routine ends there. -/
def ReadsRoutine (t : Text) (rs : List Nat) : Prop :=
  ∀ {p : Nat} {vs : List Nat} {s : State}, Outside t p →
    words (overlay t) p t.length = rs ++ vs → s.depth = 0 →
    ∃ c, rs.getLast? = some c ∧ Outside t (closeAt (overlay t) (wordEnd (overlay t) c)) ∧
      words (overlay t) (closeAt (overlay t) (wordEnd (overlay t) c)) t.length = vs ∧
      walkAt t p s = finish t (closeAt (overlay t) (wordEnd (overlay t) c)) s.suspended

theorem readsDeclaration_plain {q : Nat} (hq : IsPlain t q) : ReadsDeclaration t [q] := by
  intro p vs s hout hw hs
  obtain ⟨-, -, -, -, hend, hvs, -⟩ := walkAt_cons hout hw s
  exact ⟨_, State.behind (overlay t) q s.depth s.suspended, hend, hvs.symm, hs, rfl,
    walkAt_plain hout hw hq s⟩

theorem readsDeclaration_stray {q : Nat} (hq : wordAt (overlay t) q = .closer) :
    ReadsDeclaration t [q] := by
  intro p vs s hout hw hs
  obtain ⟨-, -, -, -, hend, hvs, -⟩ := walkAt_cons hout hw s
  refine ⟨_, State.behind (overlay t) q (s.depth - 1) s.suspended, hend, hvs.symm, ?_, rfl,
    walkAt_closer hout hw hq (by omega)⟩
  show s.depth - 1 = 0
  omega

theorem readsDeclaration_bodiless {q : Nat} {h : Header} (hn : Nests t q h)
    (hbody : h.declarationOnly = true) :
    ReadsDeclaration t (q :: codeWords t (q + 1) h.directivesEnd) := by
  intro p vs s hout hw hs
  obtain ⟨hq, -, -, hstart, hend, hvs, -⟩ := walkAt_cons hout hw s
  obtain ⟨hqstop, hstopend, hle, -, hout'⟩ := hn.located hq
  rw [words_header hstart hend.le_length (b := h.directivesEnd) (by omega) hle] at hvs
  exact ⟨_, ⟨0, s.suspended, none⟩, hout', (List.append_cancel_left hvs).symm, rfl, rfl,
    walkAt_bodiless hout hw hn hbody hs⟩

theorem readsDeclaration_nested {q : Nat} {h : Header} {ws : List Nat} (hn : Nests t q h)
    (hbody : h.declarationOnly = false) (hr : ReadsRoutine t ws) :
    ReadsDeclaration t (q :: codeWords t (q + 1) h.stop ++ ws) := by
  intro p vs s hout hw hs
  rw [List.append_assoc] at hw
  obtain ⟨hq, -, -, hstart, hend, hvs, -⟩ := walkAt_cons hout hw s
  obtain ⟨hqstop, hstopend, hle, hout', -⟩ := hn.located hq
  rw [words_header hstart hend.le_length hqstop (by omega)] at hvs
  obtain ⟨c, -, hout'', hw'', hwalk⟩ := hr hout' (List.append_cancel_left hvs).symm
    (s := State.fresh (s.suspended + 1)) rfl
  exact ⟨_, State.fresh s.suspended, hout'', hw'', rfl, rfl,
    (walkAt_nested hout hw hn hbody hs).trans hwalk⟩

theorem readsRoutine_block {o c : Nat} {bs : List Nat} (ho : wordAt (overlay t) o = .opener)
    (hb : IsBlock t bs) (hc : wordAt (overlay t) c = .closer) :
    ReadsRoutine t (o :: bs ++ [c]) := by
  intro p vs s hout hw hs
  have hw₁ : words (overlay t) p t.length = o :: (bs ++ (c :: vs)) := by simpa using hw
  obtain ⟨-, -, -, -, hend₁, hvs₁, -⟩ := walkAt_cons hout hw₁ s
  obtain ⟨p₂, s₂, hout₂, hw₂, hd₂, hn₂, hwalk₂⟩ := walkAt_isBlock hb hend₁ hvs₁.symm
    (s := State.behind (overlay t) o (s.depth + 1) s.suspended) (Nat.succ_pos _)
  have hdepth : s₂.depth = s.depth + 1 := hd₂
  have hsuspended : s₂.suspended = s.suspended := hn₂
  obtain ⟨-, -, -, -, hend₂, hvs₂, -⟩ := walkAt_cons hout₂ hw₂ s₂
  have hout' := closeAt_outside hend₂
  refine ⟨c, List.getLast?_concat, hout', ?_, ?_⟩
  · rw [hvs₂]
    exact (words_skip (le_closeAt _ _) hout'.le_length (words_closeAt _ _)).symm
  · rw [walkAt_opener hout hw₁ ho s, hwalk₂, walkAt_last hout₂ hw₂ hc (by omega), hsuspended]

theorem readsRoutine_declare {ds ws : List Nat} (hd : ReadsDeclaration t ds)
    (hr : ReadsRoutine t ws) : ReadsRoutine t (ds ++ ws) := by
  intro p vs s hout hw hs
  rw [List.append_assoc] at hw
  obtain ⟨p', s', hout', hw', hs', hn', hwalk⟩ := hd hout hw hs
  obtain ⟨c, hlast, hout'', hw'', hwalk'⟩ := hr hout' hw' hs'
  exact ⟨c, getLast?_append_of_some _ hlast, hout'', hw'', by rw [hwalk, hwalk', hn']⟩

/-- **Completeness.**  The walk reads every routine. -/
theorem readsRoutine {rs : List Nat} (h : IsRoutine t rs) : ReadsRoutine t rs := by
  -- along the derivation, one case for each rule of declarations and of routines
  refine @IsRoutine.rec t (fun ds _ => ReadsDeclaration t ds) (fun rs _ => ReadsRoutine t rs)
    ?_ ?_ ?_ ?_ ?_ ?_ rs h
  · intro q hq
    exact readsDeclaration_plain hq
  · intro q hq
    exact readsDeclaration_stray hq
  · intro q h hn hbody
    exact readsDeclaration_bodiless hn hbody
  · intro q h ws hn hbody _ hr
    exact readsDeclaration_nested hn hbody hr
  · intro o c bs ho hb hc
    exact readsRoutine_block ho hb hc
  · intro ds ws _ _ hd hr
    exact readsRoutine_declare hd hr

end PascalSurvey.Routine.Body
