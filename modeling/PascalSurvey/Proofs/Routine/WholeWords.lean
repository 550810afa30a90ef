/-
PascalSurvey/Proofs/Routine/WholeWords.lean

Which words count in a walk over a body.  A walk under way is a `Visit`; what it does there
counts (`Move.counts`) if the number of open blocks changes or a body is closed, that of a
nested routine included.  Only block keywords count (`counts_step`), and the walk knows a word
by its bytes: a keyword is a maximal run of *ASCII* identifier bytes (`BlockWord`).

That is not the rule for the names in headers, which go on with the letters of every script.
A keyword is a whole word in this sense exactly if no word character beyond ASCII touches it
(`Text.wholeWord_iff`); where one does, a part of a longer name is taken for the keyword.

Main result: a scan ends where some walk from its start halts, and all that counts on the way
are the block keywords, which are whole words unless they are touched (`scan_counts`).
-/
import Mathlib.Data.List.TakeWhile
import Mathlib.Logic.Relation
import PascalSurvey.Proofs.Routine.Walk
import PascalSurvey.Proofs.Source.Clean
import PascalSurvey.Proofs.Text.Word

namespace PascalSurvey.Routine.Body

open Ascii Source

/-! ### Block keywords -/

/-- The keywords that open a block. -/
def openers : List Text := Text.ofStrings ["begin", "try", "case", "asm"]

/-- The keywords of blocks, in small letters. -/
def IsKeyword (word : Text) : Prop := word ∈ openers ∨ word = "end"

instance (word : Text) : Decidable (IsKeyword word) := inferInstanceAs (Decidable (_ ∨ _))

/-- In `t` the keyword `word` stands from `p` to `q`, in any case and as a maximal run of ASCII
identifier bytes, and neither a dot nor an ampersand binds it. -/
structure BlockWord (t : Text) (p q : Nat) (word : Text) : Prop where
  le : q ≤ t.length
  spells : Text.toLower (Text.slice t p q) = word
  before : (byteBefore? t p).any binds = false
  after : (t[q]?).any isIdentByte = false

/-- The keywords that count while `depth` blocks are open: any that opens a block, and the one
that closes a block if there is one to close. -/
def Counting (depth : Nat) (word : Text) : Prop := word ∈ openers ∨ word = "end" ∧ 0 < depth

theorem IsKeyword.letters {word : Text} (h : IsKeyword word) :
    word ≠ [] ∧ ∀ c ∈ word, isLower c = true := by
  have hall : ∀ w ∈ (Text.ofString "end") :: openers, w ≠ [] ∧ ∀ c ∈ w, isLower c = true := by
    decide +kernel
  rcases h with h | rfl
  · exact hall word (List.mem_cons_of_mem _ h)
  · exact hall _ List.mem_cons_self

theorem Counting.isKeyword {depth : Nat} {word : Text} (h : Counting depth word) :
    IsKeyword word := h.imp_right And.left

theorem mem_openers {w : Text} :
    w ∈ openers ↔ w = "begin" ∨ w = "try" ∨ w = "case" ∨ w = "asm" := by
  simp [openers, Text.ofStrings]

theorem ofText_eq_opener {w : Text} : Word.ofText w = .opener ↔ Text.toLower w ∈ openers := by
  rw [mem_openers]
  constructor
  · intro h
    apply Classical.byContradiction
    intro hno
    revert h
    unfold Word.ofText
    rw [if_neg hno]
    split
    · exact nofun
    · split
      · exact nofun
      · split <;> exact nofun
  · intro h
    exact if_pos h

theorem ofText_eq_closer {w : Text} : Word.ofText w = .closer ↔ Text.toLower w = "end" := by
  constructor
  · unfold Word.ofText
    dsimp only
    split
    · exact nofun
    · split
      · next h => exact fun _ => h
      · split
        · exact nofun
        · split <;> exact nofun
  · intro h
    have hno : Text.ofString "end" ∉ openers := by decide
    rw [mem_openers] at hno
    unfold Word.ofText
    rw [h, if_neg hno, if_pos rfl]

/-! ### Runs of identifier bytes -/

theorem identRun_eq_iff {t : Text} {n : Nat} :
    identRun t = n ↔
      n ≤ t.length ∧ (∀ b ∈ t.take n, isIdentByte b = true) ∧ (t[n]?).any isIdentByte = false := by
  induction t generalizing n with
  | nil => cases n <;> simp [identRun]
  | cons b r ih =>
    rw [identRun_cons]
    cases n with
    | zero => cases hb : isIdentByte b <;> simp [hb]
    | succ n => cases hb : isIdentByte b <;> simp [hb, ih]

theorem byteBefore?_take {t : Text} {i n : Nat} (h : i ≤ n) :
    byteBefore? (t.take n) i = byteBefore? t i := by
  cases i with
  | zero => rfl
  | succ i => exact List.getElem?_take_of_lt h

theorem head?_reverse_take {t : Text} {p : Nat} (hp : p ≤ t.length) :
    (t.take p).reverse.head? = byteBefore? t p := by
  rw [← head?_before_ofOffset hp, Cursor.before_ofOffset]

theorem BlockWord.lt {t : Text} {p q : Nat} {word : Text} (h : BlockWord t p q word)
    (hword : IsKeyword word) : p < q := by
  rcases Nat.lt_or_ge p q with hlt | hge
  · exact hlt
  · have hnil : Text.slice t p q = [] := by simp [Text.slice, Nat.sub_eq_zero_of_le hge]
    refine absurd h.spells.symm ?_
    rw [hnil]
    exact hword.letters.1

theorem BlockWord.isLetter {t : Text} {p q : Nat} {word : Text} (h : BlockWord t p q word)
    (hword : IsKeyword word) : ∀ b ∈ Text.slice t p q, isLetter b = true :=
  isLetter_of_toLower h.spells hword.letters.2

/-- A block keyword stands at a place exactly if a word starts there that spells it. -/
theorem blockWord_iff {t : Text} {p q : Nat} {word : Text} (hword : IsKeyword word) :
    BlockWord t p q word ↔ wordStart t p = true ∧ wordEnd t p = q ∧
      Text.toLower ((t.drop p).take (identRun (t.drop p))) = word := by
  constructor
  · intro h
    have hlt := h.lt hword
    have hle := h.le
    have hletter := h.isLetter hword
    have hrun : identRun (t.drop p) = q - p := by
      refine identRun_eq_iff.mpr ⟨by rw [List.length_drop]; omega, ?_, ?_⟩
      · intro b hb
        simp [isIdentByte, hletter b hb]
      · rw [List.getElem?_drop, Nat.add_sub_cancel' (Nat.le_of_lt hlt)]
        exact h.after
    have hstart : (t[p]?).any isIdentStart = true := by
      have hp : p < t.length := by omega
      rw [List.getElem?_eq_getElem hp, Option.any_some, isIdentStart, hletter, Bool.true_or]
      rw [Text.slice, List.drop_eq_getElem_cons hp, show q - p = q - p - 1 + 1 by omega]
      exact List.mem_cons_self
    refine ⟨by rw [wordStart, hstart, h.before]; rfl, by rw [wordEnd, hrun]; omega, ?_⟩
    rw [hrun]
    exact h.spells
  · rintro ⟨hstart, rfl, hspells⟩
    obtain ⟨hle, -, hafter⟩ := identRun_eq_iff.mp (Eq.refl (identRun (t.drop p)))
    rw [List.length_drop] at hle
    obtain ⟨b, hb, -⟩ := getElem?_of_wordStart hstart
    have hp := Text.lt_length_of_getElem? hb
    refine ⟨by rw [wordEnd]; omega, ?_, ?_, ?_⟩
    · rw [wordEnd, Text.slice, Nat.add_sub_cancel_left]
      exact hspells
    · rw [wordStart, Bool.and_eq_true, Bool.not_eq_true'] at hstart
      exact hstart.2
    · rwa [List.getElem?_drop] at hafter

/-- A block keyword is a whole word exactly if no word character beyond ASCII touches it. -/
theorem BlockWord.wholeWord_iff {t : Text} {p q : Nat} {word : Text} (h : BlockWord t p q word)
    (hword : IsKeyword word) : Text.WholeWord t p q ↔ ¬Text.Touched t p q := by
  have hlt := h.lt hword
  have hle := h.le
  refine Text.wholeWord_iff hlt hle ?_ ?_ ?_
  · intro b hb
    simp [isIdentByte, h.isLetter hword b hb]
  · have hbefore := h.before
    rw [any_binds, Bool.or_eq_false_iff] at hbefore
    rw [head?_reverse_take (by omega)]
    exact hbefore.1
  · rw [List.head?_drop]
    exact h.after

/-! ### What counts in a step -/

/-- Whether a move from a state counts: it changes the number of open blocks, or closes the
body of the routine or of one nested in it. -/
def Move.counts (s : State) : Move → Prop
  | .goOn _ s' => s'.depth ≠ s.depth ∨ s'.suspended < s.suspended
  | .halt result => result.terminated = true

theorem State.not_counts_cut (s : State) (offset : Nat) : ¬(s.cut offset).counts s := Bool.false_ne_true

/-- Behind a word the walk counts exactly the openers, and the closer of an open block. -/
theorem counts_afterWord {limit start stop : Nat} {word : Word} {header : Option Header}
    {text : Text} {s : State} :
    (afterWord limit start stop word header text s).counts s ↔
      word = .opener ∨ word = .closer ∧ 0 < s.depth := by
  unfold afterWord
  cases word with
  | opener | classWord | other => simp [Move.counts]
  | closer =>
    dsimp only
    split
    · next h =>
      have hne : s.depth - 1 ≠ s.depth := by omega
      simp [Move.counts, hne, Nat.zero_lt_of_lt h]
    · split
      · next h => simp [Move.counts, h]
      · next h =>
        split
        · simp [Move.counts, Nat.pos_of_ne_zero h]
        · simp [Move.counts, State.fresh, Nat.pos_of_ne_zero h, Ne.symm h]
  | routine kind =>
    cases header with
    | none => simp [Move.counts]
    | some h =>
      dsimp only
      split
      · simpa using s.not_counts_cut _
      · next hcond =>
        simp only [Bool.or_eq_true, not_or] at hcond
        have hdepth : s.depth = 0 := by simpa using hcond.1.2
        split
        · simp [Move.counts]
        · simp [Move.counts, State.fresh, hdepth]

/-- A keyword that counts stands at a place exactly if a word starts there that means one. -/
theorem exists_counting_iff {t : Text} {p depth : Nat} :
    (∃ q word, BlockWord t p q word ∧ Counting depth word) ↔
      wordStart t p = true ∧ (wordAt t p = .opener ∨ wordAt t p = .closer ∧ 0 < depth) := by
  simp only [wordAt, ofText_eq_opener, ofText_eq_closer]
  constructor
  · rintro ⟨q, word, hat, hcount⟩
    obtain ⟨hstart, -, rfl⟩ := (blockWord_iff hcount.isKeyword).mp hat
    exact ⟨hstart, hcount⟩
  · rintro ⟨hstart, hcount⟩
    exact ⟨_, _, (blockWord_iff (Counting.isKeyword hcount)).mpr ⟨hstart, rfl, rfl⟩, hcount⟩

/-! ### Words up to a limit -/

theorem wordStart_of_length_le {t : Text} {p : Nat} (h : t.length ≤ p) : wordStart t p = false := by
  rw [wordStart, List.getElem?_eq_none h]
  rfl

theorem wordStart_take {t : Text} {p limit : Nat} (h : p < limit) {b : UInt8} {r : Text}
    (hd : t.drop p = b :: r) :
    wordStart (t.take limit) p = (isIdentStart b && !(byteBefore? t p).any binds) := by
  rw [wordStart, List.getElem?_take_of_lt h, Text.getElem?_of_drop hd,
    byteBefore?_take (Nat.le_of_lt h), Option.any_some]

theorem identRun_take (t : Text) (n : Nat) : identRun (t.take n) = min (identRun t) n := by
  rw [identRun, ← List.take_takeWhile, List.length_take, Nat.min_comm]
  rfl

theorem wordAt_take (t : Text) (p limit : Nat) :
    wordAt (t.take limit) p =
      Word.ofText ((t.drop p).take (min (identRun (t.drop p)) (limit - p))) := by
  rw [wordAt, List.drop_take, identRun_take, List.take_take, Nat.min_eq_left (Nat.min_le_right _ _)]

/-- **What counts in a step.**  At a place of a text up to a limit, a step counts exactly if a
block keyword stands there, and it is no `end` while no block is open. -/
theorem counts_step {t : Text} {limit p : Nat} (hp : p ≤ t.length) (masked : Cursor) (s : State) :
    (step limit (Cursor.ofOffset t p) masked s).counts s ↔
      ∃ q word, BlockWord (t.take limit) p q word ∧ Counting s.depth word := by
  rw [exists_counting_iff, step, Cursor.offset_ofOffset hp, Cursor.after_ofOffset]
  split
  · next hlimit =>
    rw [wordStart_of_length_le (by rw [List.length_take]; omega)]
    simpa using s.not_counts_cut _
  · next hlimit =>
    rw [Nat.not_le] at hlimit
    cases hd : t.drop p with
    | nil =>
      have hle := List.drop_eq_nil_iff.mp hd
      rw [wordStart_of_length_le (by rw [List.length_take]; omega)]
      simpa using s.not_counts_cut _
    | cons b r =>
      rw [wordStart_take hlimit hd, wordAt_take, hd, head?_before_ofOffset hp, any_binds]
      dsimp only
      split
      · next hr =>
        -- a region begins with no letter
        have hb : isIdentStart b = false := by
          cases hb : isIdentStart b with
          | false => rfl
          | true => rw [regionAt?_of_class hb (by decide)] at hr; cases hr
        simp [Move.counts, hb]
      · split
        · next hident =>
          rw [Bool.and_eq_true, Bool.not_eq_true'] at hident
          split
          · next hdot => simp [Move.counts, hdot]
          · next hdot =>
            rw [Bool.not_eq_true] at hdot
            rw [counts_afterWord, hident.1, hident.2, hdot]
            simp
        · next hident =>
          have hno : (isIdentStart b && !((byteBefore? t p).any isIdentByte ||
              (byteBefore? t p).any fun c => c == dot || c == ampersand)) = false := by
            revert hident
            cases isIdentStart b <;> cases (byteBefore? t p).any isIdentByte <;> simp
          rw [hno]
          split <;> simp [Move.counts]

/-! ### Walks -/

/-- A walk under way: where it is in the text and in the overlay, and its state. -/
structure Visit where
  text : Cursor
  masked : Cursor
  state : State
  deriving DecidableEq

/-- What the walk does next. -/
def Visit.move (limit : Nat) (v : Visit) : Move := step limit v.text v.masked v.state

/-- The walk after going on at an offset. -/
def Visit.onTo (v : Visit) (offset : Nat) (s : State) : Visit :=
  let n := max 1 (offset - v.text.offset)
  ⟨v.text.advance n, v.masked.advance n, s⟩

/-- A walk goes from one visit to the next. -/
def Goes (limit : Nat) (v w : Visit) : Prop :=
  ∃ offset s, v.move limit = .goOn offset s ∧ w = v.onTo offset s

/-- The visits of the walk that scans a text from an offset. -/
def Visited (t m : Text) (start limit : Nat) : Visit → Prop :=
  Relation.ReflTransGen (Goes limit)
    ⟨Cursor.ofOffset t start, Cursor.ofOffset m start, State.fresh 0⟩

theorem not_atEnd_of_goes {limit : Nat} {v w : Visit} (h : Goes limit v w) :
    v.text.atEnd = false := by
  obtain ⟨offset, s, hmove, -⟩ := h
  cases hend : v.text.atEnd with
  | false => rfl
  | true =>
    rw [Cursor.atEnd, List.isEmpty_iff] at hend
    rw [Visit.move, step, hend] at hmove
    split at hmove <;> cases hmove

/-- A walk halts, and with the result that it gives. -/
theorem exists_halt (limit : Nat) (v : Visit) :
    ∃ w, Relation.ReflTransGen (Goes limit) v w ∧
      w.move limit = .halt (walk limit v.text v.masked v.state) := by
  -- every step leaves less of the text
  induction hlen : v.text.after.length using Nat.strongRecOn generalizing v with
  | ind n ih =>
    subst hlen
    cases hmove : v.move limit with
    | halt result =>
      refine ⟨v, .refl, ?_⟩
      rw [walk, show step limit v.text v.masked v.state = .halt result from hmove, hmove]
    | goOn offset s =>
      have hgo : Goes limit v (v.onTo offset s) := ⟨offset, s, hmove, rfl⟩
      have hend := not_atEnd_of_goes hgo
      obtain ⟨w, hw, hhalt⟩ := ih _ (Cursor.length_after_advance_lt (by simp [hend]) (by omega))
        (v.onTo offset s) rfl
      refine ⟨w, .head hgo hw, ?_⟩
      rw [walk, show step limit v.text v.masked v.state = .goOn offset s from hmove, hhalt]
      simp [hend, Visit.onTo]

/-- The walk stays in the text. -/
theorem Visited.exists_ofOffset {t m : Text} {start limit : Nat} {v : Visit}
    (h : Visited t m start limit v) : ∃ p ≤ t.length, v.text = Cursor.ofOffset t p := by
  induction h with
  | refl => exact ⟨min start t.length, Nat.min_le_right _ _, (Cursor.ofOffset_min t start).symm⟩
  | tail _ hgo ih =>
    obtain ⟨offset, s, -, rfl⟩ := hgo
    obtain ⟨p, hp, hv⟩ := ih
    refine ⟨min (p + max 1 (offset - p)) t.length, Nat.min_le_right _ _, ?_⟩
    rw [Cursor.ofOffset_min, Visit.onTo, hv, Cursor.offset_ofOffset hp, Cursor.advance_ofOffset hp]

/-- **Main.**  A scan ends where the walk from its start halts.  Wherever that walk comes, what
it does there counts exactly if a block keyword stands at the place and, if the keyword is `end`,
a block is open.  Such a keyword is a whole word exactly if no word character beyond ASCII
touches it. -/
theorem scan_counts (t m : Text) (start limit : Nat) :
    (∃ v, Visited t m start limit v ∧ v.move limit = .halt (scan t m start limit)) ∧
      ∀ v, Visited t m start limit v →
        ((v.move limit).counts v.state ↔
          ∃ q word, BlockWord (t.take limit) v.text.offset q word ∧
            Counting v.state.depth word) ∧
        ∀ q word, BlockWord (t.take limit) v.text.offset q word → Counting v.state.depth word →
          (Text.WholeWord (t.take limit) v.text.offset q ↔
            ¬Text.Touched (t.take limit) v.text.offset q) := by
  refine ⟨exists_halt limit _, ?_⟩
  intro v hv
  obtain ⟨p, hp, htext⟩ := hv.exists_ofOffset
  constructor
  · rw [Visit.move, htext, Cursor.offset_ofOffset hp]
    exact counts_step hp v.masked v.state
  · intro q word hat hcount
    exact hat.wholeWord_iff hcount.isKeyword

/-- A body with a name that begins with a block keyword and goes on beyond ASCII. -/
def transferBody : Text := "begin EndÜbertrag := True; end; x"

/-- The name is taken for the closing `end`, though no block keyword is a whole word there. -/
theorem scan_transferBody :
    scan transferBody (overlay transferBody) 0 transferBody.length = ⟨9, true, true⟩ ∧
      ∃ v, Visited transferBody (overlay transferBody) 0 transferBody.length v ∧
        v.move transferBody.length = .halt ⟨9, true, true⟩ ∧
        ¬∃ q, IsKeyword (Text.toLower (Text.slice transferBody v.text.offset q)) ∧
          Text.WholeWord transferBody v.text.offset q := by
  refine ⟨by decide +kernel, ⟨Cursor.ofOffset transferBody 6,
    Cursor.ofOffset (overlay transferBody) 6, ⟨1, 0, none⟩⟩, ?_, by decide +kernel, ?_⟩
  · -- over `begin` and the blank behind it
    exact .tail (.single ⟨5, ⟨1, 0, none⟩, by decide +kernel, rfl⟩)
      ⟨6, ⟨1, 0, none⟩, by decide +kernel, by decide +kernel⟩
  · rintro ⟨q, hspells, hwhole⟩
    have hnever : ∀ q ≤ transferBody.length,
        IsKeyword (Text.toLower (Text.slice transferBody 6 q)) →
          Text.startsWord (transferBody.drop q) = true := by
      decide +kernel
    have hafter := hwhole.after
    rw [hnever q hwhole.le hspells] at hafter
    cases hafter

end PascalSurvey.Routine.Body
