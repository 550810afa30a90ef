/-
PascalSurvey/Proofs/Sql/Component.lean

Names of dataset components.  A name in ASCII that is none of the words which may stand before a
statement (`IsComponent`) is not mistaken for one: nothing is stripped from a statement that
begins with it (`IsComponent.strip_eq`), and the access to a member of its SQL lines is read
(`IsComponent.access?_eq`).
-/
import PascalSurvey.Proofs.Text.Fold
import PascalSurvey.Proofs.Text.Local
import PascalSurvey.Proofs.Text.Word
import PascalSurvey.Sql.Query

namespace PascalSurvey.Sql

open Ascii

/-! ### Component names -/

theorem lower_ne_dot {b : UInt8} (h : isIdentByte b = true) : lower b ≠ dot := by
  rw [lower]
  split
  · next hupper =>
    intro hdot
    have hsum := congrArg UInt8.toNat hdot
    simp only [isUpper, Bool.and_eq_true, decide_eq_true_eq, UInt8.le_iff_toNat_le,
      UInt8.toNat_add, UInt8.reduceToNat, show dot.toNat = 0x2E from rfl] at hupper hsum
    omega
  · exact ne_of_class h rfl

/-- A name in ASCII that is none of the words which may stand before a statement. -/
structure IsComponent (v : Text) : Prop where
  start : ∃ b r, v = b :: r ∧ isIdentStart b = true
  bytes : ∀ b ∈ v, isIdentByte b = true
  free : ∀ word ∈ Statement.leadingWords ++ Statement.guardWords, Text.eqFold v word = false

/-! ### Words before a statement -/

/-- A word at the head of a name and a dot ends within the name. -/
theorem afterFold?_name {v word rest r : Text} (hword : ∀ w ∈ word, isLower w = true)
    (h : Text.afterFold? word (v ++ dot :: r) = some rest) :
    word.length ≤ v.length ∧ Text.toLower (v.take word.length) = word ∧
      rest = v.drop word.length ++ dot :: r := by
  rw [Text.afterFold?] at h
  split at h
  · next hfold =>
    rw [Text.eqFold_iff, toLower_of_isLower hword] at hfold
    have hle : word.length ≤ v.length := by
      apply Nat.le_of_not_lt
      intro hlt
      -- the dot would be one of the letters of the word
      obtain ⟨k, hk⟩ := Nat.exists_eq_add_of_lt hlt
      have hmem : dot ∈ (v ++ dot :: r).take word.length := by
        rw [hk, List.take_append, show v.length + k + 1 - v.length = k + 1 by omega]
        simp
      have hdot : lower dot ∈ word := hfold ▸ List.mem_map_of_mem hmem
      exact absurd (hword _ hdot) (by decide)
    rw [List.take_append_of_le_length hle] at hfold
    rw [List.drop_append_of_le_length hle] at h
    exact ⟨hle, hfold, (Option.some.inj h).symm⟩
  · cases h

/-- So does a word that is matched with its further case variants, since the name is in
ASCII. -/
theorem matchFold?_name {v word r : Text} {n : Nat} (hv : ∀ b ∈ v, isIdentByte b = true)
    (hword : ∀ w ∈ word, isLower w = true)
    (h : Text.matchFold? word (v ++ dot :: r) = some n) :
    n = word.length ∧ n ≤ v.length ∧ Text.toLower (v.take n) = word := by
  induction word generalizing v n with
  | nil =>
    obtain rfl := Option.some.inj h
    exact ⟨rfl, Nat.zero_le _, rfl⟩
  | cons w word ih =>
    have hw := hword w List.mem_cons_self
    cases v with
    | nil =>
      rw [List.nil_append, Text.matchFold?_cons, if_neg, if_neg, if_neg] at h
      · cases h
      · exact fun h => absurd h.1 (by decide)
      · exact fun h => absurd h.1 (by decide)
      · rintro rfl
        exact absurd hw (by decide)
    | cons b v =>
      have hb := isIdentByte_lt (hv b List.mem_cons_self)
      rw [List.cons_append, Text.matchFold?_cons] at h
      split at h
      · next hlower =>
        obtain ⟨m, hm, rfl⟩ := Option.map_eq_some_iff.mp h
        obtain ⟨rfl, hle, htake⟩ := ih (fun c hc => hv c (List.mem_cons_of_mem _ hc))
          (fun c hc => hword c (List.mem_cons_of_mem _ hc)) hm
        refine ⟨rfl, Nat.succ_le_succ hle, ?_⟩
        rw [List.take_succ_cons, Text.toLower, List.map_cons, hlower]
        exact congrArg (w :: ·) htake
      · rw [if_neg, if_neg] at h
        · cases h
        · rintro ⟨rfl, -⟩
          exact absurd hb (by decide)
        · rintro ⟨rfl, -⟩
          exact absurd hb (by decide)

section
variable {v : Text} (hv : IsComponent v)
include hv

/-- A word that is not the name itself is followed by a further byte of the name. -/
theorem IsComponent.goes_on {word : Text} (hword : ∀ w ∈ word, isLower w = true)
    (hfree : Text.eqFold v word = false) (htake : Text.toLower (v.take word.length) = word) :
    ∃ c r, v.drop word.length = c :: r ∧ isIdentByte c = true := by
  cases hdrop : v.drop word.length with
  | nil =>
    rw [List.take_of_length_le (List.drop_eq_nil_iff.mp hdrop)] at htake
    have hsame : Text.eqFold v word = true :=
      Text.eqFold_iff.mpr (htake.trans (toLower_of_isLower hword).symm)
    rw [hfree] at hsame
    cases hsame
  | cons c r =>
    refine ⟨c, r, rfl, hv.bytes c ?_⟩
    exact List.mem_of_mem_drop (hdrop ▸ List.mem_cons_self)

theorem IsComponent.dropWord_eq (r : Text) (offset : Nat) {word : Text}
    (hmem : word ∈ Statement.leadingWords) :
    Statement.dropWord ⟨v ++ dot :: r, offset⟩ word = ⟨v ++ dot :: r, offset⟩ := by
  have hword := Statement.isLower_of_mem_leadingWords hmem
  have hnone : Statement.afterWord? word (v ++ dot :: r) = none := by
    rw [Statement.afterWord?]
    split
    · next rest hrest =>
      obtain ⟨-, htake, rfl⟩ := afterFold?_name hword hrest
      obtain ⟨c, r', hdrop, hc⟩ := hv.goes_on hword
        (hv.free word (List.mem_append_left _ hmem)) htake
      rw [hdrop]
      simp [hc]
    · rfl
  rw [Statement.dropWord, hnone]

theorem IsComponent.isGuarded_eq (r : Text) : Statement.isGuarded (v ++ dot :: r) = false := by
  rw [Statement.isGuarded, List.any_eq_false]
  intro word hmem
  have hword := Statement.isLower_of_mem_guardWords hmem
  have hnone : Text.matchWord? word (v ++ dot :: r) = none := by
    rw [Text.matchWord?]
    cases hmatch : Text.matchFold? word (v ++ dot :: r) with
    | none => rfl
    | some n =>
      obtain ⟨rfl, hle, htake⟩ := matchFold?_name hv.bytes hword hmatch
      obtain ⟨c, r', hdrop, hc⟩ := hv.goes_on hword
        (hv.free word (List.mem_append_right _ hmem)) htake
      have hstarts : Text.startsWord ((v ++ dot :: r).drop word.length) = true := by
        rw [List.drop_append_of_le_length hle, hdrop, List.cons_append, Text.startsWord, Utf8.head?,
          Utf8.readHead_ascii (isIdentByte_lt hc)]
        exact isWordChar_of_isIdentByte hc
      simp [hstarts]
  simp [hnone]

/-- **Nothing is stripped** from a statement that begins with a component. -/
theorem IsComponent.strip_eq (r : Text) (offset : Nat) :
    Statement.strip ⟨v ++ dot :: r, offset⟩ = ⟨v ++ dot :: r, offset⟩ := by
  have hfold : Statement.leadingWords.foldl Statement.dropWord ⟨v ++ dot :: r, offset⟩ =
      ⟨v ++ dot :: r, offset⟩ := by
    refine List.foldlRecOn (motive := (· = (⟨v ++ dot :: r, offset⟩ : Statement))) _ _ rfl ?_
    rintro _ rfl word hword
    exact hv.dropWord_eq r offset hword
  have honce : Statement.stripOnce ⟨v ++ dot :: r, offset⟩ = ⟨v ++ dot :: r, offset⟩ := by
    rw [Statement.stripOnce, hfold, Statement.dropGuard, hv.isGuarded_eq]
    rfl
  rw [Statement.strip, honce, if_neg (Nat.lt_irrefl _)]

end

/-! ### Members of the SQL lines -/

theorem IsComponent.componentName_eq {v : Text} (hv : IsComponent v) : componentName v = v := by
  have hnone : Text.afterFold? (Text.ofString "self.") v = none := by
    rw [Text.afterFold?, if_neg]
    intro h
    -- a name has no dot
    have hdot : dot ∈ Text.toLower (v.take (Text.ofString "self.").length) := by
      rw [Text.eqFold_iff.mp h]
      decide
    obtain ⟨b, hb, hlower⟩ := List.mem_map.mp hdot
    exact lower_ne_dot (hv.bytes b (List.mem_of_mem_take hb)) hlower
  rw [componentName, hnone]
  rfl

/-- A member of the SQL lines of a component, with what follows it. -/
def onLines (v name rest : Text) : Text :=
  v ++ dot :: (Text.ofString "SQL" ++ dot :: (name ++ rest))

theorem isIdentByte_sql : ∀ b ∈ Text.ofString "SQL", isIdentByte b = true :=
  List.all_eq_true.mp rfl

section
variable {v name rest : Text} (hv : IsComponent v) (hname : ∀ b ∈ name, isIdentByte b = true)
include hv hname

/-- The member is read, and what follows it is left. -/
theorem IsComponent.access?_eq (member : Text)
    (hrest : Utf8.run (fun c => isWordChar c || c == 0x2E) rest = 0) :
    access? member (onLines v name rest) =
      if spells member name then some ⟨v, Text.ofString "SQL", rest⟩ else none := by
  obtain ⟨b, r, hbr, hb⟩ := hv.start
  have hnot {t : Text} (ht : ∀ b ∈ t, isIdentByte b = true) : dot ∉ t :=
    fun h => absurd (ht _ h) (by decide)
  have hstart : (Text.identStartFold? v).isSome = true := by
    rw [hbr, Text.identStartFold?_cons, if_pos hb]
    split
    · rfl
    · split <;> rfl
  -- the whole access is one run of word characters and dots
  have hbytes : ∀ b ∈ (v ++ dot :: Text.ofString "SQL") ++ dot :: name,
      b < 0x80 ∧ (isWordChar b.toNat || b.toNat == 0x2E) = true := by
    intro b hb
    have hident (hb : isIdentByte b = true) :
        b < 0x80 ∧ (isWordChar b.toNat || b.toNat == 0x2E) = true :=
      ⟨isIdentByte_lt hb, by rw [isWordChar_of_isIdentByte hb, Bool.true_or]⟩
    simp only [List.mem_append, List.mem_cons] at hb
    rcases hb with (hb | rfl | hb) | rfl | hb
    · exact hident (hv.bytes b hb)
    · decide
    · exact hident (isIdentByte_sql b hb)
    · decide
    · exact hident (hname b hb)
  have hrun := Utf8.run_append (p := fun c => isWordChar c || c == 0x2E) hbytes rest
  rw [hrest, Nat.add_zero] at hrun
  rw [show onLines v name rest =
      ((v ++ dot :: Text.ofString "SQL") ++ dot :: name) ++ rest by simp [onLines], access?, hrun]
  simp only [List.take_left' rfl, List.drop_left' rfl, Text.cutLast?_append (hnot hname),
    Text.cutLast?_append (hnot isIdentByte_sql), Option.bind_eq_bind, Option.bind_some, hstart]
  have hspells : spells (Text.ofString "sql") (Text.ofString "SQL") = true := by decide
  simp [hspells]

end

end PascalSurvey.Sql
