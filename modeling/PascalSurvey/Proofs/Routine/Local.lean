/-
PascalSurvey/Proofs/Routine/Local.lean

What stands behind a semicolon is not read.  The words and the name of a header end before the
next semicolon (`words?_before`), and so does its result type.  Two parts of a header may hold
semicolons: the parameter list, which is read to its closing parenthesis, and the directives,
which are read to their last semicolon.
-/
import PascalSurvey.Proofs.Routine.Header
import PascalSurvey.Proofs.Source.Name

namespace PascalSurvey

open Ascii

namespace Routine.Header

/-! ### The segments of a name -/

theorem local_typeArguments? : Local typeArguments? := by
  have h := Text.local_blankRun.andThen ((local_byte (b := less) (by decide)).andThen
    ((Text.local_takeWhile (p := fun b =>
      !(b == less || b == greater || b == lparen || b == rparen || b == semicolon)) (by decide)).andThen
      (local_byte (b := greater) (by decide))))
  apply h.congr
  intro t
  unfold typeArguments?
  simp only [Option.bind_some]
  split
  · next r heq =>
    replace heq : t.drop (Text.blankRun t) = less :: r := heq
    rw [heq, List.head?_cons, if_pos rfl]
    simp only [Option.bind_some, List.drop_succ_cons, List.drop_zero]
    split
    · next r' heq' =>
      replace heq' : r.drop (r.takeWhile _).length = greater :: r' := heq'
      rw [heq', List.head?_cons, if_pos rfl]
      simp only [Option.map_some, Option.some.injEq]
      omega
    · next hne =>
      rw [if_neg fun hhead => ?_]
      · rfl
      · obtain ⟨r', hr'⟩ := List.head?_eq_some_iff.mp hhead
        exact hne r' hr'
  · next hne =>
    rw [if_neg fun hhead => ?_]
    · rfl
    · obtain ⟨r', hr'⟩ := List.head?_eq_some_iff.mp hhead
      exact hne r' hr'

theorem local_segment? : Local segment? :=
  Text.local_identFold?.andThen local_typeArguments?.getD

/-! ### The words of a header -/

theorem isLower_of_mem_keyword (kind : Kind) : ∀ c ∈ kind.keyword, isLower c = true := by
  cases kind <;> exact List.all_eq_true.mp rfl

theorem isLower_of_mem_class : ∀ c ∈ ("class" : Text), isLower c = true :=
  List.all_eq_true.mp rfl

theorem local_keyword? : Local keyword? := by
  have hlocal (k : Kind) : Local (Text.matchFold? k.keyword) :=
    Text.local_matchFold? (isLower_of_mem_keyword k)
  constructor
  · intro x y
    unfold keyword?
    congr 1
    funext k
    exact (hlocal k).same x y
  · intro x n hn
    obtain ⟨k, -, hk⟩ := List.exists_of_findSome?_eq_some hn
    exact (hlocal k).le hk

theorem bare?_before (x y : Text) :
    bare? (x ++ semicolon :: y) = bare? (x ++ [semicolon]) ∧
      ∀ m, bare? (x ++ [semicolon]) = some m → m.size ≤ x.length := by
  unfold bare?
  rw [local_keyword?.same]
  rcases hk : keyword? (x ++ [semicolon]) with - | k
  · exact ⟨rfl, fun m hm => nomatch hm⟩
  · have hk' := local_keyword?.le hk
    have hgap := Text.local_blankRun.le (x := x.drop k) rfl
    simp only [Option.bind_eq_bind, Option.bind_some, drop_before hk',
      Option.some.inj (Text.local_blankRun.same (x.drop k) y)]
    generalize Text.blankRun (x.drop k ++ [semicolon]) = gap at hgap ⊢
    have hname := Source.local_dottedName? local_segment?
    rw [List.length_drop] at hgap
    have hle : k + gap ≤ x.length := by omega
    simp only [drop_before hle, hname.same (x.drop (k + gap)) y]
    refine ⟨trivial, fun m hm => ?_⟩
    split at hm
    · cases hm
    · obtain ⟨n, hn, hm⟩ := Option.bind_eq_some_iff.mp hm
      have := hname.le hn
      rw [List.length_drop] at this
      rw [← Option.some.inj hm]
      simp only [Candidate.size]
      omega

theorem local_classWord? : Local classWord? := by
  have hclass : Local (Text.matchFold? "class") := Text.local_matchFold? isLower_of_mem_class
  have hblank : Local fun t => some (t.takeWhile fun b => b == space || b == tab).length :=
    Text.local_takeWhile (by decide)
  constructor
  · intro x y
    unfold classWord?
    rw [hclass.same]
    rcases hk : Text.matchFold? "class" (x ++ [semicolon]) with - | k
    · rfl
    · have hk' := hclass.le hk
      simp only [Option.bind_eq_bind, Option.bind_some, drop_before hk',
        Option.some.inj (hblank.same (x.drop k) y)]
  · intro x n hn
    obtain ⟨k, hk, hn⟩ := Option.bind_eq_some_iff.mp hn
    have hk' := hclass.le hk
    have hgap := hblank.le (x := x.drop k) rfl
    rw [drop_before hk'] at hn
    rw [List.length_drop] at hgap
    dsimp only at hn
    split at hn
    · cases hn
    · cases hn
      omega

/-- The candidate at the head of a text ends before the next semicolon. -/
theorem words?_before (x y : Text) :
    words? (x ++ semicolon :: y) = words? (x ++ [semicolon]) ∧
      ∀ m, words? (x ++ [semicolon]) = some m → m.size ≤ x.length := by
  unfold words?
  rw [local_classWord?.same, (bare?_before x y).1]
  rcases hk : classWord? (x ++ [semicolon]) with - | k
  · exact ⟨rfl, (bare?_before x y).2⟩
  · have hk' := local_classWord?.le hk
    simp only [Option.bind_eq_bind, Option.bind_some, drop_before hk', (bare?_before (x.drop k) y).1]
    refine ⟨trivial, fun m hm => ?_⟩
    rw [Option.orElse_eq_orElse, Option.orElse_eq_or, Option.or_eq_some_iff] at hm
    rcases hm with hm | ⟨-, hm⟩
    · obtain ⟨m', hm', hm⟩ := Option.bind_eq_some_iff.mp hm
      have hsize := (bare?_before (x.drop k) y).2 m' hm'
      rw [← Option.some.inj hm]
      simp only [Candidate.size, List.length_drop] at hsize ⊢
      omega
    · exact (bare?_before x y).2 m hm

/-! ### Parameters, result types and directives -/

/-- The number of blanks, or of identifier bytes, before the semicolon. -/
theorem blankRun_before (x y : Text) :
    Source.blankRun (x ++ semicolon :: y) = Source.blankRun x ∧ Source.blankRun x ≤ x.length := by
  unfold Source.blankRun
  rw [Text.takeWhile_before (by decide)]
  exact ⟨rfl, (List.takeWhile_sublist _).length_le⟩

theorem identRun_before (x y : Text) :
    Source.identRun (x ++ semicolon :: y) = Source.identRun x ∧ Source.identRun x ≤ x.length := by
  unfold Source.identRun
  rw [Text.takeWhile_before (by decide)]
  exact ⟨rfl, (List.takeWhile_sublist _).length_le⟩

theorem find?_before (x : Text) :
    ∃ n, n ≤ x.length ∧ ∀ y, Text.find? semicolon (x ++ semicolon :: y) = some n := by
  induction x with
  | nil => exact ⟨0, Nat.le_refl _, fun _ => rfl⟩
  | cons a x ih =>
    obtain ⟨n, hle, hn⟩ := ih
    by_cases ha : a = semicolon
    · subst ha
      exact ⟨0, Nat.zero_le _, fun _ => rfl⟩
    · refine ⟨n + 1, Nat.succ_le_succ hle, fun y => ?_⟩
      have := hn y
      unfold Text.find? at this ⊢
      rw [List.cons_append, List.findIdx?_cons, this]
      simp [ha]

theorem parameters?_of_ne {a : UInt8} (ha : a ≠ lparen) (r : Text) :
    parameters? (a :: r) = some (none, 0) := by
  unfold parameters?
  split
  · next heq => exact absurd (List.cons.inj heq).1 ha
  · rfl

theorem result?_of_ne {a : UInt8} (ha : a ≠ colon) (r : Text) :
    result? (a :: r) = some (none, 0) := by
  unfold result?
  split
  · next heq => exact absurd (List.cons.inj heq).1 ha
  · rfl

/-- A parameter list whose parentheses are closed in a text is the same in a longer one. -/
theorem parameters?_before {x : Text} (u : Text)
    (h : x.head? = some lparen → (Source.closing? 0 (x ++ [semicolon, newline])).isSome) :
    parameters? (x ++ semicolon :: newline :: u) = parameters? (x ++ [semicolon, newline]) ∧
      ∀ params n, parameters? (x ++ [semicolon, newline]) = some (params, n) → n ≤ x.length := by
  cases x with
  | nil =>
    rw [List.nil_append, List.nil_append, parameters?_of_ne (by decide), parameters?_of_ne (by decide)]
    exact ⟨rfl, fun params n hn => by cases hn; exact Nat.le_refl _⟩
  | cons a x =>
    by_cases ha : a = lparen
    · subst ha
      obtain ⟨close, hclose⟩ := Option.isSome_iff_exists.mp (h rfl)
      have happ := Source.closing?_append u hclose
      rw [List.append_assoc] at happ
      -- neither the semicolon nor the line break behind it closes a parenthesis
      have hlt : close + 1 ≤ (lparen :: x).length := by
        have hat := Source.closing?_spec hclose
        rcases Nat.lt_or_ge close (lparen :: x).length with hlt | hge
        · exact hlt
        · rw [List.getElem?_append_right hge] at hat
          exact absurd (List.mem_of_getElem? hat) (by decide)
      have hrun (v : Text) := blankRun_before ((lparen :: x).drop (close + 1)) v
      have hpar (v : Text) (hv : Source.closing? 0 (lparen :: x ++ semicolon :: v) = some close) :
          parameters? (lparen :: x ++ semicolon :: v) =
            some (some (1, close), close + 1 + Source.blankRun ((lparen :: x).drop (close + 1))) := by
        show (Source.closing? 0 (lparen :: x ++ semicolon :: v)).map _ = _
        rw [hv, Option.map_some, drop_before hlt, (hrun v).1]
      rw [hpar (newline :: u) happ, hpar [newline] hclose]
      refine ⟨rfl, fun params n hn => ?_⟩
      have hle := (hrun []).2
      rw [List.length_drop] at hle
      cases hn
      omega
    · rw [List.cons_append, List.cons_append, parameters?_of_ne ha, parameters?_of_ne ha]
      exact ⟨rfl, fun params n hn => by cases hn; exact Nat.zero_le _⟩

theorem result?_before (x y z : Text) :
    result? (x ++ semicolon :: y) = result? (x ++ semicolon :: z) ∧
      ∀ returnType n, result? (x ++ semicolon :: z) = some (returnType, n) → n ≤ x.length := by
  cases x with
  | nil =>
    rw [List.nil_append, List.nil_append, result?_of_ne (by decide), result?_of_ne (by decide)]
    exact ⟨rfl, fun returnType n hn => by cases hn; exact Nat.le_refl _⟩
  | cons a x =>
    by_cases ha : a = colon
    · subst ha
      obtain ⟨k, hk, hfind⟩ := find?_before x
      have hres (v : Text) : result? (colon :: x ++ semicolon :: v) =
          if (Text.squeeze (x.take k)).isEmpty then none
          else some (some (Text.squeeze (x.take k)), k + 1) := by
        show ((Text.find? semicolon (x ++ semicolon :: v)).bind fun n =>
          if (Text.squeeze ((x ++ semicolon :: v).take n)).isEmpty then none
          else some (some (Text.squeeze ((x ++ semicolon :: v).take n)), n + 1)) = _
        rw [hfind v, Option.bind_some, List.take_append_of_le_length hk]
      rw [hres, hres]
      refine ⟨rfl, fun returnType n hn => ?_⟩
      split at hn
      · cases hn
      · cases hn
        exact Nat.succ_le_succ hk
    · rw [List.cons_append, List.cons_append, result?_of_ne ha, result?_of_ne ha]
      exact ⟨rfl, fun returnType n hn => by cases hn; exact Nat.zero_le _⟩

/-- A directive is read to the next semicolon. -/
theorem directive?_before (x : Text) :
    (∀ y, directive? (x ++ semicolon :: y) = none) ∨
      ∃ n bodiless, n ≤ x.length ∧
        ∀ y, directive? (x ++ semicolon :: y) = some (n + 1, bodiless) := by
  have hlead := (blankRun_before x []).2
  have hhead (v : Text) : ((x.drop (Source.blankRun x) ++ semicolon :: v).head?).any isIdentStart =
      ((x.drop (Source.blankRun x)).head?).any isIdentStart := by
    cases x.drop (Source.blankRun x) <;> rfl
  have hlen := List.length_drop (l := x) (i := Source.blankRun x)
  generalize hx : x.drop (Source.blankRun x) = x' at hhead hlen
  have hn : (if (x'.head?).any isIdentStart then Source.identRun x' else 0) ≤ x'.length := by
    have := (identRun_before x' []).2
    split <;> omega
  generalize hword : (if (x'.head?).any isIdentStart then Source.identRun x' else 0) = n at hn
  obtain ⟨p, hp, hfind⟩ := find?_before (x'.drop n)
  rw [List.length_drop] at hp
  have key (v : Text) : directive? (x ++ semicolon :: v) =
      if bodilessWords.contains (Text.toLower (x'.take n)) ||
        directiveWords.contains (Text.toLower (x'.take n)) then
        some (Source.blankRun x + n + p + 1, bodilessWords.contains (Text.toLower (x'.take n)))
      else none := by
    unfold directive?
    simp only [(blankRun_before x v).1, drop_before hlead, hx, hhead, (identRun_before x' v).1,
      hword, List.take_append_of_le_length hn, drop_before hn, hfind v]
  cases hdir : bodilessWords.contains (Text.toLower (x'.take n)) ||
      directiveWords.contains (Text.toLower (x'.take n)) with
  | true =>
    refine .inr ⟨Source.blankRun x + n + p, bodilessWords.contains (Text.toLower (x'.take n)),
      by omega, fun v => ?_⟩
    rw [key v, if_pos hdir]
  | false =>
    left
    intro v
    rw [key v, if_neg (by rw [hdir]; decide)]

/-- Directives are read to their last semicolon, if what stands behind it is none. -/
theorem directives_before (x : Text) {y z : Text} (hy : directive? y = none)
    (hz : directive? z = none) : directives (x ++ semicolon :: y) = directives (x ++ semicolon :: z) := by
  have hnone {v : Text} (hv : directive? v = none) : directives v = (0, false) := by
    rw [directives, hv]
  induction hlen : x.length using Nat.strongRecOn generalizing x with
  | ind l ih =>
    subst hlen
    rcases directive?_before x with h | ⟨n, bodiless, hn, h⟩
    · rw [hnone (h y), hnone (h z)]
    · have hstep (v : Text) : directives (x ++ semicolon :: v) =
          (n + 1 + (directives ((x ++ semicolon :: v).drop (n + 1))).1,
            bodiless || (directives ((x ++ semicolon :: v).drop (n + 1))).2) := by
        rw [directives, h v]
        simp
      rw [hstep y, hstep z]
      -- the directive ends before the semicolon or with it
      rcases Nat.lt_or_ge n x.length with hlt | hge
      · have hsame := ih _ (by rw [List.length_drop]; omega) (x.drop (n + 1)) rfl
        have hlt' : n + 1 ≤ x.length := hlt
        rw [drop_before hlt', drop_before hlt', hsame]
      · obtain rfl : n = x.length := by omega
        have hrest (v : Text) : (x ++ semicolon :: v).drop (x.length + 1) = v := by
          rw [← List.drop_drop, List.drop_left]
          rfl
        rw [hrest, hrest, hnone hy, hnone hz]

/-! ### Whole headers -/

/-- What stands behind a semicolon: its directives are the same in a longer text. -/
theorem directives_behind {x u r : Text} (hu : directive? (newline :: u) = none)
    (hr : x ++ [semicolon, newline] = semicolon :: r) : directives (r ++ u) = directives r := by
  have hline : directive? [newline] = none := rfl
  cases x with
  | nil =>
    obtain rfl : [newline] = r := (List.cons.inj hr).2
    have hnone {v : Text} (hv : directive? v = none) : directives v = (0, false) := by
      rw [directives, hv]
    rw [List.singleton_append, hnone hu, hnone hline]
  | cons c x =>
    obtain rfl : x ++ [semicolon, newline] = r := (List.cons.inj hr).2
    rw [List.append_assoc]
    exact directives_before x hu hline

/-- A list that begins inside the first of two texts. -/
theorem cons_of_append {v w r : Text} {b : UInt8} (hv : v ≠ []) (h : v ++ w = b :: r) :
    ∃ r', v = b :: r' ∧ r = r' ++ w := by
  obtain ⟨c, v, rfl⟩ := List.exists_cons_of_ne_nil hv
  obtain ⟨rfl, rfl⟩ := List.cons.inj h
  exact ⟨v, rfl, rfl⟩

/-- Where the parameter list begins is read from the words before it. -/
theorem toParams_before (o : Nat) (before : Text) {x : Text} {m : Candidate}
    (hm : m.size ≤ x.length) (y : Text) : toParams ⟨o, before, x ++ semicolon :: y⟩ m =
      m.size + Source.blankRun (x.drop m.size) := by
  simp only [toParams, drop_before hm, (blankRun_before (x.drop m.size) y).1]

/-- The parts of a header that stand before a semicolon. -/
theorem ofParts_before {o : Nat} {before x : Text} {m : Candidate} (hm : m.size ≤ x.length)
    (y z : Text) (params : Option (Nat × Nat)) (n₁ : Nat) (returnType : Option Text) (n₂ : Nat)
    {r r' : Text} (hr : directives r = directives r') (kind : Kind) :
    ofParts ⟨o, before, x ++ semicolon :: y⟩ m params n₁ returnType n₂ r kind =
      ofParts ⟨o, before, x ++ semicolon :: z⟩ m params n₁ returnType n₂ r' kind := by
  have hto (v : Text) := toParams_before o before hm v
  have hname (v : Text) : ((x ++ semicolon :: v).drop (m.lead + m.keyword + m.gap)).take m.name =
      (x.drop (m.lead + m.keyword + m.gap)).take m.name := by
    unfold Candidate.size at hm
    rw [drop_before (by omega), List.take_append_of_le_length (by rw [List.length_drop]; omega)]
  simp only [ofParts, hto, hname, hr]

/-- **A header is read from its text.**  A header whose parentheses are closed in a text that
ends with a semicolon and a line break is the same header in a longer text, if no directive
comes next. -/
theorem ofCandidate?_before {o : Nat} {before x u : Text} {m : Candidate} (hm : m.size ≤ x.length)
    (hclosed : ∀ j, (x.drop j).head? = some lparen →
      (Source.closing? 0 (x.drop j ++ [semicolon, newline])).isSome)
    (hu : directive? (newline :: u) = none) :
    ofCandidate? ⟨o, before, x ++ semicolon :: newline :: u⟩ m =
      ofCandidate? ⟨o, before, x ++ [semicolon, newline]⟩ m := by
  have hrun := (blankRun_before (x.drop m.size) []).2
  rw [List.length_drop] at hrun
  have hto (v : Text) := toParams_before o before hm v
  have hkey (v : Text) : ((x ++ semicolon :: v).drop m.lead).take m.keyword =
      (x.drop m.lead).take m.keyword := by
    unfold Candidate.size at hm
    rw [drop_before (by omega), List.take_append_of_le_length (by rw [List.length_drop]; omega)]
  generalize hp : m.size + Source.blankRun (x.drop m.size) = p at hto
  have hple : p ≤ x.length := by omega
  obtain ⟨hparams, hn₁⟩ := parameters?_before u (hclosed p)
  rw [List.length_drop] at hn₁
  have hresult (q : Nat) := result?_before (x.drop q) (newline :: u) [newline]
  have hsplit (v : Text) : semicolon :: newline :: v = [semicolon, newline] ++ v := rfl
  -- the parts end before the semicolon
  have hends₁ {params n₁}
      (h₁ : parameters? (x.drop p ++ [semicolon, newline]) = some (params, n₁)) :
      p + n₁ ≤ x.length := by
    have := hn₁ _ _ h₁
    omega
  have hends₂ {params n₁ returnType n₂}
      (h₁ : parameters? (x.drop p ++ [semicolon, newline]) = some (params, n₁))
      (h₂ : result? (x.drop (p + n₁) ++ [semicolon, newline]) = some (returnType, n₂)) :
      p + n₁ + n₂ ≤ x.length := by
    have := hends₁ h₁
    have := (hresult (p + n₁)).2 _ _ h₂
    rw [List.length_drop] at this
    omega
  apply Option.ext
  intro h
  rw [ofCandidate?_eq_some_iff, ofCandidate?_eq_some_iff]
  simp only [hto, hkey, drop_before hple, hparams]
  apply and_congr_right
  intro _
  -- either way the parts are the same, and only what stands behind the semicolon is longer
  constructor
  · rintro ⟨params, n₁, returnType, n₂, r, kind, h₁, h₂, h₃, h₄, rfl⟩
    have hle₁ := hends₁ h₁
    rw [drop_before hle₁, (hresult _).1] at h₂
    have hle₂ := hends₂ h₁ h₂
    rw [drop_before hle₂, hsplit, ← List.append_assoc] at h₃
    obtain ⟨r', hr', rfl⟩ := cons_of_append (by simp) h₃
    refine ⟨params, n₁, returnType, n₂, r', kind, h₁, ?_, ?_, h₄, ?_⟩
    · rw [drop_before hle₁, h₂]
    · rw [drop_before hle₂, hr']
    · exact ofParts_before hm _ _ params n₁ returnType n₂ (directives_behind hu hr') kind
  · rintro ⟨params, n₁, returnType, n₂, r, kind, h₁, h₂, h₃, h₄, rfl⟩
    have hle₁ := hends₁ h₁
    rw [drop_before hle₁] at h₂
    have hle₂ := hends₂ h₁ h₂
    rw [drop_before hle₂] at h₃
    refine ⟨params, n₁, returnType, n₂, r ++ u, kind, h₁, ?_, ?_, h₄, ?_⟩
    · rw [drop_before hle₁, (hresult _).1, h₂]
    · rw [drop_before hle₂, hsplit, ← List.append_assoc, h₃, List.cons_append]
    · exact (ofParts_before hm _ _ params n₁ returnType n₂ (directives_behind hu h₃) kind).symm

end Routine.Header
end PascalSurvey
