/-
PascalSurvey/Proofs/Outline/Declared.lean

The declared types of a text with line ends of two bytes.  What may be a declaration (`Candidate`)
is found at the same places (`candidates_crlf`).  What follows its kind word decides whether it is
one, and there the two texts differ: `of` and a line feed make a class reference, `of`, a carriage
return and a line feed do not (`declared?_wrapped`).  Every other candidate declares the same, with
the line ends of the text in its ancestor (`declared?_withCrlf`).

Main result: the outlines of the two texts agree but for these types (`ofText_crlf`).
-/
import PascalSurvey.Proofs.Outline.LineEnds

namespace PascalSurvey.Outline

open Ascii Source Text

namespace TypeDecl

/-! ### Openings -/

theorem typeParameters_crlf (t : Text) :
    typeParameters (crlf t) = crlfOffset t (typeParameters t) := by
  cases t with
  | nil => rfl
  | cons b r =>
    by_cases hb : b = newline
    · subst hb
      rfl
    by_cases hless : b = less
    · subst hless
      have hopen (x : Text) : typeParameters (less :: x) =
          ((find? greater x).map (· + 2)).getD 0 := by
        unfold typeParameters
        split
        · next r heq =>
          obtain rfl := (List.cons.inj heq).2
          cases find? greater x <;> rfl
        · next hno => exact absurd rfl (hno x)
      rw [crlf_cons hb, hopen, hopen, find?_crlf (by decide) (by decide)]
      rcases hn : find? greater r with - | n
      · rfl
      · have hsucc := crlfOffset_succ (getElem?_of_find? hn)
        rw [if_neg (by decide), Nat.add_zero] at hsucc
        show crlfOffset r n + 2 = crlfOffset (less :: r) (n + 1 + 1)
        rw [crlfOffset_cons_of_ne hb, hsucc]
    · have hnone (x : Text) : typeParameters (b :: x) = 0 := by
        rw [typeParameters]
        exact fun _ h => hless (List.cons.inj h).1
      rw [crlf_cons hb, hnone, hnone, crlfOffset_zero]

theorem packedRun_crlf (t : Text) : packedRun (crlf t) = crlfOffset t (packedRun t) := by
  have hword : ∀ c ∈ ("packed" : Text), isLower c = true := List.all_eq_true.mp rfl
  rw [packedRun, packedRun, (elastic_matchFold? hword).stretches]
  rcases matchFold? "packed" t with - | n
  · rfl
  · simp only [Option.map_some, drop_crlf, blankRun_crlf, crlfOffset_eq_zero_iff, ← crlfOffset_add]
    split
    · rfl
    · rfl

theorem isLower_of_mem_kindWords {w : Text} (hw : w ∈ kindWords) :
    ∀ c ∈ w, isLower c = true := by
  have hall : kindWords.all fun w => w.all isLower := rfl
  exact List.all_eq_true.mp (List.all_eq_true.mp hall w hw)

theorem stretches_kindWords : Stretches fun t => kindWords.findSome? fun w => matchWord? w t :=
  Stretches.findSome? kindWords fun _ hw =>
    (elastic_matchWord? (isLower_of_mem_kindWords hw)).stretches

theorem newline_not_mem_kindWord {t : Text} {k : Nat}
    (h : (kindWords.findSome? fun w => matchWord? w t) = some k) : newline ∉ t.take k := by
  obtain ⟨w, hw, hmatch⟩ := List.exists_of_findSome?_eq_some h
  refine newline_not_mem_matchFold? (isLower_of_mem_kindWords hw) ?_
  obtain ⟨m, hm, h⟩ := Option.bind_eq_some_iff.mp hmatch
  split at h
  · cases h
  · rw [hm, h]

/-- The kind word behind an equals sign, and where it ends. -/
def kindWord? (r : Text) : Option (Text × Nat) :=
  let gap := Text.blankRun r
  let toKind := gap + packedRun (r.drop gap)
  (kindWords.findSome? fun w => matchWord? w (r.drop toKind)).map fun k =>
    ((r.drop toKind).take k, toKind + k)

theorem kindWord?_crlf (r : Text) :
    kindWord? (crlf r) = (kindWord? r).map fun (word, k) => (word, crlfOffset r k) := by
  have hwords := stretches_kindWords
  rw [Stretches] at hwords
  rw [kindWord?, kindWord?]
  simp only [blankRun_crlf, drop_crlf, packedRun_crlf, ← crlfOffset_add, hwords]
  generalize Text.blankRun r + packedRun (r.drop (Text.blankRun r)) = toKind
  rcases hk : kindWords.findSome? fun w => matchWord? w (r.drop toKind) with - | k
  · rfl
  · simp only [Option.map_some, take_crlf, crlf_line (newline_not_mem_kindWord hk), crlfOffset_add]

/-- An opening is a name, an equals sign and a kind word. -/
theorem opening?_eq (t : Text) : opening? t =
    (identFold? (t.drop (indent t))).bind fun n =>
      let len := n + typeParameters (t.drop (indent t + n))
      let e := indent t + len + Text.blankRun (t.drop (indent t + len))
      if (t.drop e).head? = some equals then
        (kindWord? (t.drop (e + 1))).map fun (word, k) => (indent t, len, word, e + 1 + k)
      else none := by
  rw [opening?]
  rcases identFold? (t.drop (indent t)) with - | n
  · rfl
  simp only [Option.bind_eq_bind, Option.bind_some]
  generalize n + typeParameters (t.drop (indent t + n)) = len
  generalize indent t + len + Text.blankRun (t.drop (indent t + len)) = e
  split
  · next r htail =>
    have hr : r = t.drop (e + 1) := by
      rw [← List.drop_drop, htail]
      rfl
    have hdrop (n : Nat) : r.drop n = t.drop (e + 1 + n) := by rw [hr, List.drop_drop]
    have hhead : (t.drop e).head? = some equals := by
      rw [htail]
      rfl
    rw [if_pos hhead, ← hr, kindWord?]
    simp only [hdrop, ← Nat.add_assoc, Option.map_map]
    rw [Option.map_eq_bind]
    congr 1
    funext k
    simp only [Function.comp_apply, Nat.add_assoc]
  · next hno =>
    rw [if_neg]
    intro hhead
    obtain ⟨r, hr⟩ := List.head?_eq_some_iff.mp hhead
    exact hno r hr

/-- **An opening is found with either line ends**, its name and its end at their places in the
longer text. -/
theorem opening?_crlf (t : Text) : opening? (crlf t) =
    (opening? t).map fun (lead, n, word, size) =>
      (lead, crlfOffset (t.drop lead) n, word, crlfOffset t size) := by
  have hlead : indent (crlf t) = crlfOffset t (indent t) := by
    rw [crlfOffset_indent, indent_crlf]
  rw [opening?_eq, opening?_eq]
  simp only [hlead, drop_crlf, elastic_identFold?.stretches _]
  rcases identFold? (t.drop (indent t)) with - | n
  · rfl
  have hname : crlfOffset (t.drop (indent t)) n + typeParameters (crlf (t.drop (indent t + n))) =
      crlfOffset (t.drop (indent t)) (n + typeParameters (t.drop (indent t + n))) := by
    rw [typeParameters_crlf, crlfOffset_add, List.drop_drop]
  simp only [Option.map_some, Option.bind_some, ← crlfOffset_add, drop_crlf,
    hname, blankRun_crlf]
  generalize n + typeParameters (t.drop (indent t + n)) = len
  generalize indent t + len + Text.blankRun (t.drop (indent t + len)) = e
  simp only [head?_crlf (c := equals) (by decide) (by decide)]
  split
  · next hhead =>
    have hsucc : crlfOffset t (e + 1) = crlfOffset t e + 1 := by
      rw [List.head?_drop] at hhead
      rw [crlfOffset_succ hhead, if_neg (by decide), Nat.add_zero]
    rw [← hsucc, drop_crlf, kindWord?_crlf, Option.map_map, Option.map_map]
    congr 1
    funext ⟨word, k⟩
    simp only [Function.comp_apply, crlfOffset_indent, crlfOffset_add]
  · rfl

/-- An opening begins with its indent, and it is not empty. -/
theorem opening?_spec {t : Text} {lead n size : Nat} {word : Text}
    (h : opening? t = some (lead, n, word, size)) : lead = indent t ∧ 0 < size := by
  rw [opening?_eq] at h
  obtain ⟨k, -, h⟩ := Option.bind_eq_some_iff.mp h
  dsimp only at h
  split at h
  · obtain ⟨⟨word, k⟩, -, heq⟩ := Option.map_eq_some_iff.mp h
    simp only [Prod.mk.injEq] at heq
    exact ⟨heq.1.symm, by omega⟩
  · cases h

/-! ### Candidates -/

/-- The declaration in the text with the longer line ends. -/
def withCrlf (d : TypeDecl) : TypeDecl := { d with parent := d.parent.map crlf }

theorem withCrlf_eq_self_iff {d : TypeDecl} : d.withCrlf = d ↔ ∀ p ∈ d.parent, newline ∉ p := by
  obtain ⟨name, kind, parent, line⟩ := d
  rcases parent with - | p
  · simp [withCrlf]
  · simp [withCrlf, crlf_eq_self_iff]

/-- What begins like the declaration of a type. -/
structure Candidate where
  name : Text
  kind : TypeKind
  line : Nat
  /-- What follows the kind word, from the first byte that is no blank. -/
  rest : Text

namespace Candidate

/-- What is declared, if anything is. -/
def decl (c : Candidate) : TypeDecl := ⟨c.name, c.kind, parentOf? c.rest, c.line⟩

/-- The type that is declared, if one is. -/
def declared? (c : Candidate) : Option TypeDecl :=
  if isReference c.rest then none else some c.decl

/-- Whether the line ends behind `of`. -/
def isWrapped (c : Candidate) : Bool := startsWith (toLower c.rest) "of\n"

/-- The candidate of the text with the longer line ends. -/
def withCrlf (c : Candidate) : Candidate := { c with rest := crlf c.rest }

end Candidate

/-- The candidate at a place of a part of an overlay, and the length of its opening. -/
def candidate? (code : Text) (start : Nat) (c : Cursor) : Option (Candidate × Nat) :=
  if atLineStart c then
    (opening? c.after).map fun (lead, n, word, size) =>
      (⟨withoutBlanks ((c.after.drop lead).take n), kindOf word,
        lineOf code (start + c.offset + lead), trimStart (c.after.drop size)⟩, size)
  else none

/-- The candidates between two offsets of an overlay. -/
def candidates (code : Text) (start stop : Nat) : List Candidate :=
  (Cursor.start (slice code start stop)).searchAll (candidate? code start)

theorem within_eq (code : Text) (start stop : Nat) :
    within code start stop = (candidates code start stop).filterMap Candidate.declared? := by
  have hfound : within code start stop = ((Cursor.start (slice code start stop)).searchAll fun c =>
      (candidate? code start c).map fun (a, n) => (a.declared?, n)).filterMap id := by
    rw [within]
    congr 2
    funext c
    rw [candidate?]
    split
    · rw [Option.map_map]
      rfl
    · rfl
  rw [hfound, Cursor.searchAll_map, List.filterMap_map]
  rfl

/-- **The candidates are found at the same places with either line ends.** -/
theorem candidates_crlf (code : Text) (s e : Nat) :
    candidates (crlf code) (crlfOffset code s) (crlfOffset code e) =
      (candidates code s e).map Candidate.withCrlf := by
  rw [candidates, candidates, slice_crlf]
  refine Cursor.searchAll_crlf (fun i hi => ?_) (fun i _ c n h => ?_) fun i hi => ?_
  · rw [candidate?, candidate?, atLineStart_crlf, Cursor.after_crlf, Cursor.after_ofOffset,
      Cursor.offset_ofOffset hi, Cursor.offset_ofOffset (crlfOffset_le hi), opening?_crlf]
    split
    · rcases ho : opening? ((slice code s e).drop i) with - | ⟨lead, n, word, size⟩
      · rfl
      obtain rfl := (opening?_spec ho).1
      -- the indent stands on one line, so the name is on the line it was on
      have hlead := crlfOffset_indent ((slice code s e).drop i)
      have hline : crlfOffset code s + crlfOffset (slice code s e) i +
          indent ((slice code s e).drop i) =
            crlfOffset code (s + i + indent ((slice code s e).drop i)) := by
        have hle : i + indent ((slice code s e).drop i) ≤ (slice code s e).length := by
          have hindent := indent_le ((slice code s e).drop i)
          rw [List.length_drop] at hindent
          omega
        rw [Nat.add_assoc s, ← crlfOffset_slice hle, crlfOffset_add (slice code s e), hlead,
          Nat.add_assoc]
      simp only [Option.map_some, hline, lineOf_crlf, drop_crlf, trimStart_crlf]
      conv_lhs => rw [← hlead, drop_crlf, hlead, take_crlf, withoutBlanks_crlf]
      rfl
    · rfl
  · rw [candidate?] at h
    split at h
    · obtain ⟨⟨lead, k, word, size⟩, ho, heq⟩ := Option.map_eq_some_iff.mp h
      obtain ⟨-, rfl⟩ := Prod.mk.inj heq
      exact (opening?_spec ho).2
    · cases h
  · rw [candidate?, atLineStart_inside hi]
    rfl

/-! ### What follows the kind word -/

/-- With the longer line ends `of` at the end of a line says nothing. -/
theorem isReference_crlf (rest : Text) : isReference (crlf rest) =
    (startsWith rest ";" || startsWith (toLower rest) "of ") := by
  have hof := @startsWith_crlf_newline "of" (by decide) (by decide) (toLower rest)
  rw [isReference, toLower_crlf, startsWith_crlf (by decide) (by decide),
    startsWith_crlf (by decide) (by decide)]
  show (_ || startsWith (crlf (toLower rest)) ("of" ++ [newline])) = _
  rw [hof, Bool.or_false]

theorem parentOf?_paren (inner : Text) : parentOf? (lparen :: inner) =
    let p := trim (inner.takeWhile fun b => b != comma && b != rparen)
    if p.isEmpty then none else some p := rfl

theorem parentOf?_eq_none {b : UInt8} (hb : b ≠ lparen) (r : Text) : parentOf? (b :: r) = none := by
  rw [parentOf?, ite_self]
  exact fun _ heq => hb (List.cons.inj heq).1

/-- **The first ancestor keeps its text**, with the line ends in it. -/
theorem parentOf?_crlf (rest : Text) : parentOf? (crlf rest) = (parentOf? rest).map crlf := by
  cases rest with
  | nil => rfl
  | cons b r =>
    by_cases hb : b = newline
    · subst hb
      rw [crlf_newline, parentOf?_eq_none (by decide), parentOf?_eq_none (by decide),
        Option.map_none]
    by_cases hparen : b = lparen
    · subst hparen
      rw [crlf_cons hb, parentOf?_paren, parentOf?_paren, takeWhile_crlf rfl rfl, trim_crlf]
      dsimp only
      rw [isEmpty_crlf]
      split <;> rfl
    · rw [crlf_cons hb, parentOf?_eq_none hparen, parentOf?_eq_none hparen, Option.map_none]

/-! ### Declarations -/

namespace Candidate

variable {c : Candidate} {cs : List Candidate}

theorem decl_withCrlf (c : Candidate) : c.withCrlf.decl = c.decl.withCrlf := by
  rw [decl, TypeDecl.withCrlf, decl, ← parentOf?_crlf]
  rfl

/-- What is declared where the line ends behind `of`: nothing with the one line ends, a type with
the other. -/
theorem declared?_wrapped (h : c.isWrapped = true) :
    c.declared? = none ∧ c.withCrlf.declared? = some c.decl.withCrlf := by
  obtain ⟨r, hr⟩ := Option.isSome_iff_exists.mp h
  rw [after?_eq_some_iff] at hr
  have hof : startsWith (toLower c.rest) "of " = false := by
    rw [hr]
    rfl
  have hsemi : startsWith c.rest ";" = false := by
    rcases hrest : c.rest with - | ⟨b, x⟩
    · rfl
    · have hb : lower b = 0x6F := by
        rw [hrest] at hr
        exact (List.cons.inj hr).1
      have hne : semicolon ≠ b := by
        rintro rfl
        cases hb
      rw [startsWith]
      show (if semicolon = b then _ else _ : Option Text).isSome = false
      rw [if_neg hne]
      rfl
  constructor
  · have href : isReference c.rest = true := by
      rw [isReference, Bool.or_eq_true]
      exact .inr h
    rw [declared?, href, if_pos rfl]
  · have href : isReference (crlf c.rest) = false := by
      rw [isReference_crlf, hsemi, hof]
      rfl
    show (if isReference (crlf c.rest) then none else some c.withCrlf.decl) = _
    rw [href, if_neg Bool.false_ne_true, decl_withCrlf]

/-- Any other candidate declares the same. -/
theorem declared?_withCrlf (h : c.isWrapped = false) :
    c.withCrlf.declared? = c.declared?.map TypeDecl.withCrlf := by
  have href : isReference (crlf c.rest) = isReference c.rest := by
    rw [isReference_crlf, isReference]
    show _ = (_ || c.isWrapped)
    rw [h, Bool.or_false]
  show (if isReference (crlf c.rest) then none else some c.withCrlf.decl) = _
  rw [href, decl_withCrlf, declared?]
  split <;> rfl

/-- With the longer line ends nothing less is declared. -/
theorem sublist_withCrlf (cs : List Candidate) :
    ((cs.filterMap declared?).map TypeDecl.withCrlf).Sublist
      ((cs.map withCrlf).filterMap declared?) := by
  induction cs with
  | nil => exact .refl _
  | cons c cs ih =>
    rw [List.map_cons, List.filterMap_cons, List.filterMap_cons]
    cases h : c.isWrapped with
    | true =>
      rw [(declared?_wrapped h).1, (declared?_wrapped h).2]
      exact ih.cons _
    | false =>
      rw [declared?_withCrlf h]
      rcases c.declared? with - | d
      · exact ih
      · exact ih.cons_cons _

/-- It is more by what stands where a line ends behind `of`. -/
theorem length_withCrlf (cs : List Candidate) : ((cs.map withCrlf).filterMap declared?).length =
    (cs.filterMap declared?).length + cs.countP isWrapped := by
  induction cs with
  | nil => rfl
  | cons c cs ih =>
    rw [List.map_cons, List.filterMap_cons, List.filterMap_cons, List.countP_cons]
    cases h : c.isWrapped with
    | true =>
      rw [(declared?_wrapped h).1, (declared?_wrapped h).2, if_pos rfl]
      exact congrArg (· + 1) ih
    | false =>
      rw [declared?_withCrlf h, if_neg Bool.false_ne_true]
      rcases c.declared? with - | d
      · exact ih
      · rw [Option.map_some, List.length_cons, List.length_cons, ih]
        omega

/-- **The same is declared just where no line ends behind `of`, nor within an ancestor.** -/
theorem declared_withCrlf_iff : (cs.map withCrlf).filterMap declared? = cs.filterMap declared? ↔
    (∀ c ∈ cs, c.isWrapped = false) ∧
      ∀ d ∈ cs.filterMap declared?, ∀ p ∈ d.parent, newline ∉ p := by
  have hsub := sublist_withCrlf cs
  have hlen := length_withCrlf cs
  have hsame (ds : List TypeDecl) :
      ds.map TypeDecl.withCrlf = ds ↔ ∀ d ∈ ds, ∀ p ∈ d.parent, newline ∉ p := by
    conv_lhs => rhs; rw [← List.map_id ds]
    simp only [List.map_inj_left, id_eq, TypeDecl.withCrlf_eq_self_iff]
  constructor
  · -- with as many types as before, none came in and none was changed
    intro h
    rw [h] at hsub hlen
    have hwrapped : cs.countP isWrapped = 0 := Nat.add_eq_left.mp hlen.symm
    refine ⟨fun c hc => ?_, (hsame _).mp (hsub.eq_of_length (List.length_map _))⟩
    simpa using List.countP_eq_zero.mp hwrapped c hc
  · rintro ⟨hwrapped, hparent⟩
    have hzero : cs.countP isWrapped = 0 := List.countP_eq_zero.mpr (by simpa using hwrapped)
    rw [hzero, Nat.add_zero] at hlen
    rw [← hsub.eq_of_length (by rw [List.length_map, hlen])]
    exact (hsame _).mpr hparent

end Candidate
end TypeDecl

/-! ### The outline -/

/-- The part of an overlay in which types are declared for others. -/
def publicRange (code : Text) : Option (Nat × Nat) :=
  match sections code with
  | (some r, _) => some r
  | (none, some _) => none
  | (none, none) => some (0, code.length)

theorem publicRange_crlf (code : Text) :
    publicRange (crlf code) = (publicRange code).map (crlfRange code) := by
  rw [publicRange, publicRange, sections_crlf]
  rcases sections code with ⟨- | interface, - | implementation⟩
  · rw [← crlfOffset_length]
    rfl
  · rfl
  · rfl
  · rfl

/-- What may be the declaration of a type in a text. -/
def publicCandidates (t : Text) : List TypeDecl.Candidate :=
  ((publicRange (overlay t)).map fun r => TypeDecl.candidates (overlay t) r.1 r.2).getD []

section
variable (t : Text) (file : Path)

theorem interfaceUses_eq : (ofText t file).interfaceUses =
    ((publicRange (overlay t)).map fun r =>
      UsesEntry.within (overlay t) (clean t) r.1 r.2).getD [] := by
  rw [publicRange, ofText]
  dsimp only
  rcases sections (overlay t) with ⟨- | interface, - | implementation⟩ <;> rfl

theorem implementationUses_eq : (ofText t file).implementationUses =
    ((sections (overlay t)).2.map fun r =>
      UsesEntry.within (overlay t) (clean t) r.1 r.2).getD [] := rfl

theorem types_eq :
    (ofText t file).types = (publicCandidates t).filterMap TypeDecl.Candidate.declared? := by
  have hwithin (r : Option (Nat × Nat)) :
      (r.map fun r => TypeDecl.within (overlay t) r.1 r.2).getD [] =
        ((r.map fun r => TypeDecl.candidates (overlay t) r.1 r.2).getD []).filterMap
          TypeDecl.Candidate.declared? := by
    rcases r with - | r
    · rfl
    · exact TypeDecl.within_eq _ _ _
  rw [publicCandidates, ← hwithin, publicRange, ofText]
  dsimp only
  rcases sections (overlay t) with ⟨- | interface, - | implementation⟩ <;> rfl

end

section
variable {t : Text} (hclosed : ∀ p ∈ pieces t, p.isClosed = true)
include hclosed

theorem overlay_crlf : overlay (crlf t) = crlf (overlay t) := mask_crlf _ t hclosed

theorem clean_crlf : clean (crlf t) = crlf (clean t) := mask_crlf _ t hclosed

theorem publicCandidates_crlf :
    publicCandidates (crlf t) = (publicCandidates t).map TypeDecl.Candidate.withCrlf := by
  rw [publicCandidates, publicCandidates, overlay_crlf hclosed, publicRange_crlf]
  rcases publicRange (overlay t) with - | ⟨s, e⟩
  · rfl
  · exact TypeDecl.candidates_crlf (overlay t) s e

/-- The entries of a part of the text. -/
theorem uses_crlf (r : Option (Nat × Nat)) :
    ((r.map (crlfRange (overlay t))).map fun r =>
      UsesEntry.within (crlf (overlay t)) (crlf (clean t)) r.1 r.2) =
    r.map fun r => UsesEntry.within (overlay t) (clean t) r.1 r.2 := by
  rcases r with - | ⟨s, e⟩
  · rfl
  · rw [Option.map_some, Option.map_some, crlfRange, crlfOffset_mask, crlfOffset_mask,
      UsesEntry.within_crlf hclosed]
    rfl

/-- **The line ends do not change the outline of a text but for its types**, if all literals are
closed.  The types are the same just where no line ends behind the `of` of a reference, nor within
an ancestor; with the longer line ends none of them is missing. -/
theorem ofText_crlf (file : Path) :
    ((ofText (crlf t) file).name = (ofText t file).name ∧
      (ofText (crlf t) file).isProgram = (ofText t file).isProgram ∧
      (ofText (crlf t) file).lineCount = (ofText t file).lineCount ∧
      (ofText (crlf t) file).interfaceUses = (ofText t file).interfaceUses ∧
      (ofText (crlf t) file).implementationUses = (ofText t file).implementationUses) ∧
    ((ofText t file).types.map TypeDecl.withCrlf).Sublist (ofText (crlf t) file).types ∧
    ((ofText (crlf t) file).types = (ofText t file).types ↔
      (∀ c ∈ publicCandidates t, c.isWrapped = false) ∧
        ∀ d ∈ (ofText t file).types, ∀ p ∈ d.parent, newline ∉ p) := by
  have hheading : findHeading? (overlay (crlf t)) = findHeading? (overlay t) := by
    rw [overlay_crlf hclosed, findHeading?_crlf]
  refine ⟨⟨?_, ?_, ?_, ?_, ?_⟩, ?_, ?_⟩
  -- what the heading says, and the number of lines
  · show ((findHeading? (overlay (crlf t))).getD _).2 = ((findHeading? (overlay t)).getD _).2
    rw [hheading]
  · show ((findHeading? (overlay (crlf t))).getD _).1 = ((findHeading? (overlay t)).getD _).1
    rw [hheading]
  · exact length_lines_crlf t
  -- the clauses of the two sections
  · rw [interfaceUses_eq, interfaceUses_eq, overlay_crlf hclosed, clean_crlf hclosed,
      publicRange_crlf, uses_crlf hclosed]
  · rw [implementationUses_eq, implementationUses_eq, overlay_crlf hclosed, clean_crlf hclosed,
      sections_crlf, uses_crlf hclosed]
  -- the types, which are filtered from the same candidates
  · rw [types_eq, types_eq, publicCandidates_crlf hclosed]
    exact TypeDecl.Candidate.sublist_withCrlf _
  · rw [types_eq, types_eq, publicCandidates_crlf hclosed]
    exact TypeDecl.Candidate.declared_withCrlf_iff

end

/-- A unit with a declaration over two lines, a comment and a literal. -/
def viewUnit : Text :=
  "unit View;\ninterface\nuses\n  Classes; // base\ntype\n  TView =\n    class(TComponent)\n  end;\n"
    ++ "const\n  Caption = 'It''s';\nimplementation\nend.\n"

theorem ofText_crlf_viewUnit :
    (∀ p ∈ pieces viewUnit, p.isClosed = true) ∧
      (ofText viewUnit "View.pas").types = [⟨"TView", .class_, some "TComponent", 6⟩] ∧
      (ofText (crlf viewUnit) "View.pas").types = (ofText viewUnit "View.pas").types := by
  have hclosed : ∀ p ∈ pieces viewUnit, p.isClosed = true := by decide +kernel
  have htypes : (ofText viewUnit "View.pas").types =
      [⟨"TView", .class_, some "TComponent", 6⟩] := by
    decide +kernel
  refine ⟨hclosed, htypes, (ofText_crlf hclosed "View.pas").2.2.mpr ⟨by decide +kernel, ?_⟩⟩
  rw [htypes]
  decide +kernel

/-- A unit with a class reference over two lines. -/
def metaclassUnit : Text :=
  "unit Forms;\ninterface\ntype\n  TFormClass = class of\n    TForm;\nimplementation\nend.\n"

theorem types_metaclassUnit :
    cr ∉ metaclassUnit ∧ (ofText metaclassUnit "Forms.pas").types = [] ∧
      (ofText (crlf metaclassUnit) "Forms.pas").types = [⟨"TFormClass", .class_, none, 4⟩] := by
  decide +kernel

end PascalSurvey.Outline
