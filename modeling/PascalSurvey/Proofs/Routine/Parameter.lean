/-
PascalSurvey/Proofs/Routine/Parameter.lean

Parameter lists as they are written.  A `Group` is what one group of a list declares: a modifier,
names, and a type that may come with a default value.  `Writes` is the relation between a group and
the texts for it, with any white space around the words and the separators.

A group is read in the order in which it is cut: the white space around it goes (`trim_written`),
then the modifier, which is a word of its own and so no name (`splitModifier_written`), then the
type behind the first colon (`splitType_written`) and last the names (`names_written`).  No cut goes
wrong, because what is cut off first has no separator of the cut: a colon or a comma in a default
value stands behind the colon that is found.

Main result: `parseList_written`.
-/
import PascalSurvey.Proofs.Path.Join
import PascalSurvey.Proofs.Text.White
import PascalSurvey.Routine.Parameter

namespace PascalSurvey

open Ascii Text Utf8

namespace Routine

/-! ### Modifiers -/

/-- The words that announce a modifier. -/
def Modifier.words : Modifier → List Text
  | .none => []
  | .var => ofStrings ["var"]
  | .const => ofStrings ["const", "constref"]
  | .out => ofStrings ["out"]

/-- A word announces a modifier, in any case. -/
def Modifier.Announced (m : Modifier) (word : Text) : Prop := toLower word ∈ m.words

instance (m : Modifier) (word : Text) : Decidable (m.Announced word) :=
  inferInstanceAs (Decidable (_ ∈ _))

theorem Modifier.ofKeyword?_eq_some_iff {m : Modifier} {word : Text} :
    Modifier.ofKeyword? word = some m ↔ m.Announced word := by
  unfold Modifier.ofKeyword? Modifier.Announced eqFold
  generalize toLower word = w
  by_cases hvar : w = ofString "var"
  · subst hvar
    cases m <;> decide
  by_cases hconst : w = ofString "const"
  · subst hconst
    cases m <;> decide
  by_cases hconstref : w = ofString "constref"
  · subst hconstref
    cases m <;> decide
  by_cases hout : w = ofString "out"
  · subst hout
    cases m <;> decide
  · have hlower : toLower (ofString "var") = ofString "var" ∧
        toLower (ofString "const") = ofString "const" ∧
        toLower (ofString "constref") = ofString "constref" ∧
        toLower (ofString "out") = ofString "out" := by decide
    cases m <;> simp [Modifier.words, ofStrings, hlower, hvar, hconst, hconstref, hout]

theorem Modifier.Announced.isLetter {m : Modifier} {word : Text} (h : m.Announced word) :
    ∀ b ∈ word, isLetter b = true := by
  have hwords : ∀ k ∈ m.words, ∀ c ∈ k, isLower c = true := by cases m <;> decide +kernel
  exact isLetter_of_toLower rfl (hwords _ h)

theorem Modifier.Announced.ink {m : Modifier} {word : Text} (h : m.Announced word) : Ink word :=
  ink_of_isIdentByte fun b hb => by simp [isIdentByte, h.isLetter b hb]

theorem Modifier.Announced.ne_nil {m : Modifier} {word : Text} (h : m.Announced word) :
    word ≠ [] := by
  rintro rfl
  revert h
  cases m <;> decide

/-! ### What a group declares -/

namespace Parameter

/-- A text that may stand as a name in a list: no white space, no separator and no modifier.  Every
identifier is one, unless it is spelled like a modifier (`isName_of_identifier`). -/
@[mk_iff]
structure IsName (n : Text) : Prop where
  ink : Ink n
  ne_nil : n ≠ []
  noComma : comma ∉ n
  noColon : colon ∉ n
  noSemicolon : semicolon ∉ n
  noModifier : ∀ m : Modifier, ¬m.Announced n

theorem isName_of_identifier {n : Text} (hne : n ≠ []) (hident : Chars isWordChar n)
    (hmod : ∀ m : Modifier, ¬m.Announced n) : IsName n where
  ink := ink_of_isWordChar hident
  ne_nil := hne
  noComma := hident.not_mem (by decide) (by decide)
  noColon := hident.not_mem (by decide) (by decide)
  noSemicolon := hident.not_mem (by decide) (by decide)
  noModifier := hmod

/-- A type, with single spaces between its words. -/
@[mk_iff]
structure IsType (ty : Text) : Prop where
  squeezed : squeeze ty = ty
  ne_nil : ty ≠ []
  noEquals : equals ∉ ty
  noSemicolon : semicolon ∉ ty

instance (n : Text) : Decidable (IsName n) :=
  have : Decidable (∀ m : Modifier, ¬m.Announced n) :=
    decidable_of_iff (∀ m ∈ [Modifier.none, .var, .const, .out], ¬m.Announced n)
      ⟨fun h m => h m (by cases m <;> decide), fun h m _ => h m⟩
  decidable_of_iff' _ (isName_iff n)

instance (ty : Text) : Decidable (IsType ty) := decidable_of_iff' _ (isType_iff ty)

/-- A type and the default value that may follow it. -/
structure Typing where
  type : Text
  default : Option Text
  isType : IsType type
  noSemicolon : ∀ v ∈ default, semicolon ∉ v

/-- What a group of a parameter list declares. -/
structure Group where
  modifier : Modifier
  names : List Text
  /-- Only what has a type can have a default value. -/
  typing : Option Typing
  names_ne_nil : names ≠ []
  isName : ∀ n ∈ names, IsName n

/-- One parameter for each name, with the modifier and the type of the group. -/
def Group.parameters (g : Group) : List Parameter :=
  g.names.map (⟨·, (g.typing.map Typing.type).getD [], g.modifier⟩)

/-! ### How it is written -/

/-- A modifier is written as one of its words, with white space behind it. -/
inductive WritesModifier : Modifier → Text → Prop
  | none : WritesModifier .none []
  | word {m w e} : Modifier.Announced m w → White e → e ≠ [] → WritesModifier m (w ++ e)

/-- Names are written between commas, with white space around these. -/
inductive WritesNames : List Text → Text → Prop
  | last (n : Text) : WritesNames [n] n
  | cons {ns d e t} (n : Text) : White e → White d → WritesNames ns t →
      WritesNames (n :: ns) (n ++ (e ++ comma :: (d ++ t)))

/-- A type is written behind a colon, a default value behind an equals sign. -/
inductive WritesTyping : Option Typing → Text → Prop
  | untyped : WritesTyping none []
  | typed {e d ty h h'} : White e → White d →
      WritesTyping (some ⟨ty, none, h, h'⟩) (e ++ colon :: (d ++ ty))
  | withDefault {e d e' d' ty v h h'} : White e → White d → White e' → White d' →
      WritesTyping (some ⟨ty, some v, h, h'⟩)
        (e ++ colon :: (d ++ (ty ++ (e' ++ equals :: (d' ++ v)))))

/-- A group is written with white space around it. -/
inductive Writes (g : Group) : Text → Prop
  | intro {d m t s e} : White d → WritesModifier g.modifier m → WritesNames g.names t →
      WritesTyping g.typing s → White e → Writes g (d ++ (m ++ (t ++ (s ++ e))))

section
variable {d e n t u w x y z ty : Text} {ns : List Text} {c : UInt8}

/-! ### The semicolons are between the groups -/

/-- A separator that is no comma stands in the names only if it stands in one of them. -/
theorem WritesNames.not_mem (h : WritesNames ns t) (hns : ∀ n ∈ ns, c ∉ n) (hc : c < 0x80)
    (hink : isBlankChar c.toNat = false) (hcomma : c ≠ comma) : c ∉ t := by
  induction h with
  | last n => exact hns n List.mem_cons_self
  | cons n he hd _ ih =>
    simp only [List.mem_append, List.mem_cons, not_or]
    exact ⟨hns n List.mem_cons_self, he.not_mem hc hink, hcomma, hd.not_mem hc hink,
      ih fun n hn => hns n (List.mem_cons_of_mem _ hn)⟩

theorem white_noSemicolon (he : White e) : semicolon ∉ e :=
  he.not_mem (by decide) (by decide)

theorem WritesModifier.noSemicolon {m : Modifier} (h : WritesModifier m t) : semicolon ∉ t := by
  cases h with
  | none => exact List.not_mem_nil
  | word hword he _ =>
    rw [List.mem_append, not_or]
    exact ⟨fun hmem => absurd (hword.isLetter _ hmem) (by decide), white_noSemicolon he⟩

theorem WritesTyping.noSemicolon {ty : Option Typing} (h : WritesTyping ty t) : semicolon ∉ t := by
  cases h with
  | untyped => exact List.not_mem_nil
  | @typed _ _ _ hty _ he hd =>
    simp only [List.mem_append, List.mem_cons, not_or]
    exact ⟨white_noSemicolon he, by decide, white_noSemicolon hd, hty.noSemicolon⟩
  | @withDefault _ _ _ _ _ _ hty hv he hd he' hd' =>
    simp only [List.mem_append, List.mem_cons, not_or]
    exact ⟨white_noSemicolon he, by decide, white_noSemicolon hd, hty.noSemicolon,
      white_noSemicolon he', by decide, white_noSemicolon hd', hv _ rfl⟩

theorem Writes.noSemicolon {g : Group} (h : Writes g t) : semicolon ∉ t := by
  obtain ⟨hd, hm, ht, hs, he⟩ := h
  simp only [List.mem_append, not_or]
  exact ⟨white_noSemicolon hd, hm.noSemicolon,
    ht.not_mem (fun n hn => (g.isName n hn).noSemicolon) (by decide) (by decide) (by decide),
    hs.noSemicolon, white_noSemicolon he⟩

/-! ### The first and the last name -/

/-- What may stand behind a name in a group without the white space around it. -/
inductive BehindName : Text → Prop
  | nil : BehindName []
  | separator {e : Text} {c : UInt8} (z : Text) : White e → c = comma ∨ c = colon →
      BehindName (e ++ c :: z)

theorem WritesNames.first (h : WritesNames ns t) (hs : BehindName s) :
    ∃ n ∈ ns, ∃ z, t ++ s = n ++ z ∧ BehindName z := by
  cases h with
  | last => exact ⟨_, List.mem_cons_self, s, rfl, hs⟩
  | @cons _ d e t n he =>
    refine ⟨n, List.mem_cons_self, e ++ comma :: (d ++ t ++ s), ?_, .separator _ he (.inl rfl)⟩
    simp only [List.append_assoc, List.cons_append]

theorem WritesNames.final (h : WritesNames ns t) : ∃ u, ∃ n ∈ ns, t = u ++ n := by
  induction h with
  | last n => exact ⟨[], n, List.mem_cons_self, rfl⟩
  | @cons ns d e t n _ _ _ ih =>
    obtain ⟨u, last, hmem, rfl⟩ := ih
    exact ⟨n ++ (e ++ comma :: (d ++ u)), last, List.mem_cons_of_mem _ hmem, by simp⟩

/-! ### The modifier -/

/-- **A name is no modifier**, whatever stands behind it. -/
theorem splitModifier_name (hn : IsName n) (hz : BehindName z) :
    splitModifier (n ++ z) = (.none, n ++ z) := by
  have hname : Modifier.ofKeyword? n = none := by
    rw [Option.eq_none_iff_forall_ne_some]
    exact fun m hm => hn.noModifier m (Modifier.ofKeyword?_eq_some_iff.mp hm)
  have hseparated {c : UInt8} (hc : c = comma ∨ c = colon) (y : Text) :
      Modifier.ofKeyword? (n ++ c :: y) = none := by
    rw [Option.eq_none_iff_forall_ne_some]
    intro m hm
    have := (Modifier.ofKeyword?_eq_some_iff.mp hm).isLetter c (by simp)
    rcases hc with rfl | rfl <;> cases this
  rw [splitModifier, cutBlank?_ink hn.ink]
  cases hz with
  | nil => rfl
  | @separator e c z he hc =>
    by_cases hne : e = []
    · -- the separator stands right behind the name and goes with it
      have hascii : c < 0x80 := by rcases hc with rfl | rfl <;> decide
      have hink : isBlankChar c.toNat = false := by rcases hc with rfl | rfl <;> decide
      rw [hne, List.nil_append, cutBlank?_byte hascii hink]
      cases cutBlank? z with
      | none => rfl
      | some cut => simp only [Option.map_some, hseparated hc]
    · obtain ⟨e', -, hcut⟩ := cutBlank?_white he hne (c :: z)
      simp only [hcut, Option.map_some, List.append_nil, hname]

theorem splitModifier_written {m : Modifier} (hm : WritesModifier m w) (hn : IsName n)
    (hz : BehindName z) : splitModifier (w ++ (n ++ z)) = (m, n ++ z) := by
  cases hm with
  | none => rw [List.nil_append, splitModifier_name hn hz]
  | @word _ w e hword he hne =>
    obtain ⟨e', he', hcut⟩ := cutBlank?_white he hne (n ++ z)
    rw [splitModifier, List.append_assoc, cutBlank?_ink hword.ink, hcut]
    simp only [Option.map_some, List.append_nil, Modifier.ofKeyword?_eq_some_iff.mpr hword,
      trimStart_white he', trimStart_append_ink hn.ink hn.ne_nil]

/-- Nothing is trimmed off in front of the modifier, nor of the first name if there is none. -/
theorem trimStart_written {m : Modifier} (hm : WritesModifier m w) (hn : IsName n) (z : Text) :
    trimStart (w ++ (n ++ z)) = w ++ (n ++ z) := by
  cases hm with
  | none => exact trimStart_append_ink hn.ink hn.ne_nil z
  | word hword => rw [List.append_assoc, trimStart_append_ink hword.ink hword.ne_nil]

/-! ### The type -/

/-- What is behind the names says the type. -/
inductive SaysType : Text → Text → Prop
  | untyped : SaysType [] []
  | typed {e x ty : Text} : White e → squeeze (x.takeWhile (· != equals)) = ty →
      SaysType ty (e ++ colon :: x)

theorem SaysType.behindName (h : SaysType ty s) : BehindName s := by
  cases h with
  | untyped => exact .nil
  | typed he _ => exact .separator _ he (.inr rfl)

/-- It does so without the white space at its end. -/
theorem WritesTyping.trimEnd {p : Option Typing} (hs : WritesTyping p s) (he : White e)
    (hu : trimEnd u = u) :
    ∃ s', SaysType ((p.map Typing.type).getD []) s' ∧ Text.trimEnd (u ++ (s ++ e)) = u ++ s' := by
  have hcolon (x y : Text) : Text.trimEnd (u ++ ((x ++ colon :: y) ++ e)) =
      u ++ (x ++ colon :: Text.trimEnd (y ++ e)) := by
    have := trimEnd_stop (c := colon) (by decide) (by decide) (u ++ x) (y ++ e)
    simpa only [List.append_assoc, List.cons_append] using this
  have hsays {d e ty : Text} (hd : White d) (hty : IsType ty) (he : White e) (y : Text)
      (hy : y.takeWhile (· != equals) = []) :
      squeeze ((d ++ (ty ++ e) ++ y).takeWhile (· != equals)) = ty := by
    have hmem : equals ∉ d ++ (ty ++ e) := by
      simp only [List.mem_append, not_or]
      exact ⟨hd.not_mem (by decide) (by decide), hty.noEquals, he.not_mem (by decide) (by decide)⟩
    rw [List.takeWhile_append_of_pos (fun b hb => bne_iff_ne.mpr (ne_of_mem_of_not_mem hb hmem)),
      hy, List.append_nil, squeeze_white hd hty.squeezed he]
  cases hs with
  | untyped =>
    refine ⟨[], .untyped, ?_⟩
    rw [List.nil_append, trimEnd_white he, hu, List.append_nil]
  | @typed e₁ d ty hty hv he₁ hd =>
    refine ⟨_, .typed he₁ ?_, hcolon e₁ (d ++ ty)⟩
    rw [trimEnd_white he, trimEnd_squeezed hty.squeezed hty.ne_nil]
    have := hsays hd hty .nil [] rfl
    rwa [List.append_nil, List.append_nil] at this
  | @withDefault e₁ d e₂ d₂ ty v hty hv he₁ hd he₂ hd₂ =>
    have hend : Text.trimEnd ((d ++ (ty ++ (e₂ ++ equals :: (d₂ ++ v)))) ++ e) =
        d ++ (ty ++ e₂) ++ equals :: Text.trimEnd (d₂ ++ v ++ e) := by
      rw [← trimEnd_stop (by decide) (by decide)]
      simp
    refine ⟨_, .typed he₁ ?_, hcolon e₁ _⟩
    rw [hend]
    exact hsays hd hty he₂ _ rfl

/-- **The type is cut off at the first colon**, and what is behind its equals sign is left out. -/
theorem splitType_written (ht : colon ∉ t) (hs : SaysType ty s) :
    ∃ e, White e ∧ splitType (t ++ s) = (t ++ e, ty) := by
  cases hs with
  | untyped =>
    have hcut : cut? colon t = none := by
      rw [Option.eq_none_iff_forall_ne_some]
      rintro ⟨x, y⟩ h
      rw [cut?_eq_some h] at ht
      simp at ht
    refine ⟨[], .nil, ?_⟩
    rw [List.append_nil, splitType, hcut]
  | @typed e x _ he hty =>
    have hmem : colon ∉ t ++ e := by
      rw [List.mem_append, not_or]
      exact ⟨ht, he.not_mem (by decide) (by decide)⟩
    refine ⟨e, he, ?_⟩
    rw [← List.append_assoc, splitType, cut?_append hmem]
    simp only [hty]

/-! ### The names -/

/-- **The names are cut apart at the commas.** -/
theorem names_written (h : WritesNames ns t) (hns : ∀ n ∈ ns, IsName n) (hd : White d)
    (he : White e) : (split comma (d ++ (t ++ e))).map trim = ns := by
  have hpiece {d n e : Text} (hd : White d) (hn : IsName n) (he : White e) :
      split comma (d ++ (n ++ e)) = [d ++ (n ++ e)] := by
    apply Path.split_of_not_mem
    simp only [List.mem_append, not_or]
    exact ⟨hd.not_mem (by decide) (by decide), hn.noComma, he.not_mem (by decide) (by decide)⟩
  induction h generalizing d with
  | last n =>
    have hn := hns n List.mem_cons_self
    rw [hpiece hd hn he, List.map_singleton, trim_white_ink hd hn.ink he]
  | @cons ns d₁ e₁ t n he₁ hd₁ _ ih =>
    have hn := hns n List.mem_cons_self
    have hsplit : d ++ ((n ++ (e₁ ++ comma :: (d₁ ++ t))) ++ e) =
        (d ++ (n ++ e₁)) ++ comma :: (d₁ ++ (t ++ e)) := by simp
    rw [hsplit, Path.split_append, List.map_append, hpiece hd hn he₁, List.map_singleton,
      trim_white_ink hd hn.ink he₁, ih (fun n hn => hns n (List.mem_cons_of_mem _ hn)) hd₁]
    rfl

/-! ### Groups and lists -/

/-- Trimming leaves the modifier, the names and the type. -/
theorem trim_written {g : Group} (hd : White d) (hm : WritesModifier g.modifier w)
    (ht : WritesNames g.names t) (hs : WritesTyping g.typing s) (he : White e) :
    ∃ s', SaysType ((g.typing.map Typing.type).getD []) s' ∧
      trim (d ++ (w ++ (t ++ (s ++ e)))) = w ++ (t ++ s') := by
  obtain ⟨n, hn, z, hz, -⟩ := ht.first .nil
  obtain ⟨u, last, hlast, hu⟩ := ht.final
  have hend : trimEnd (w ++ t) = w ++ t := by
    rw [hu, ← List.append_assoc]
    exact trimEnd_append_ink (g.isName last hlast).ink (g.isName last hlast).ne_nil _
  obtain ⟨s', hs', htrim⟩ := hs.trimEnd he hend
  refine ⟨s', hs', ?_⟩
  rw [List.append_nil] at hz
  rw [hz, List.append_assoc] at htrim ⊢
  rw [trim, trimStart_white hd, List.append_assoc, trimStart_written hm (g.isName n hn)]
  simpa only [List.append_assoc] using htrim

/-- **A written group is read as it was meant.** -/
theorem ofGroup_written {g : Group} (h : Writes g t) : ofGroup t = g.parameters := by
  obtain ⟨hd, hm, ht, hs, he⟩ := h
  obtain ⟨s', hs', htrim⟩ := trim_written hd hm ht hs he
  obtain ⟨n, hn, z, hz, hbehind⟩ := ht.first hs'.behindName
  obtain ⟨e', he', htype⟩ := splitType_written
    (ht.not_mem (fun n hn => (g.isName n hn).noColon) (by decide) (by decide) (by decide)) hs'
  have hmodifier := splitModifier_written hm (g.isName n hn) hbehind
  have hnames := names_written ht g.isName .nil he'
  have hkeep : g.names.filter (!·.isEmpty) = g.names := by
    rw [List.filter_eq_self]
    intro n hn
    simpa using (g.isName n hn).ne_nil
  rw [← hz] at hmodifier
  rw [ofGroup, htrim, hmodifier]
  dsimp only
  rw [htype]
  dsimp only
  rw [List.nil_append] at hnames
  rw [hnames, hkeep, Group.parameters]

/-- **Main.** Parameter lists are read as they are written.  A list of groups, each written with its
modifier, its names between commas, its type behind a colon and its default value behind an equals
sign, with any white space around these and semicolons between the groups, gives the parameters of
the groups in order. -/
theorem parseList_written {gs : List Group} {ts : List Text} (h : List.Forall₂ Writes gs ts) :
    parseList (join [semicolon] ts) = gs.flatMap Group.parameters := by
  have hgroups : ts.flatMap ofGroup = gs.flatMap Group.parameters := by
    induction h with
    | nil => rfl
    | cons hg _ ih => rw [List.flatMap_cons, List.flatMap_cons, ofGroup_written hg, ih]
  have hsemicolon : ∀ t ∈ ts, semicolon ∉ t := by
    clear hgroups
    induction h with
    | nil => exact fun _ ht => absurd ht List.not_mem_nil
    | cons hg _ ih => exact List.forall_mem_cons.mpr ⟨hg.noSemicolon, ih⟩
  rw [parseList, ← hgroups]
  by_cases hne : ts = []
  · simp [hne, join, split, splitWhere, ofGroup, trim, trimStart, trimEnd, dropBlanksBack,
      splitModifier, cutBlank?, splitType, cut?]
  · rw [Path.split_join hne hsemicolon]

end

/-- Groups with and without a modifier, a type and a default value. -/
def sampleGroups : List Group :=
  [⟨.const, ofStrings ["first", "last"],
      some ⟨"Integer", some "Max(1, 2)", by decide +kernel, by decide⟩,
      by decide, by decide +kernel⟩,
    ⟨.none, ofStrings ["outer"], some ⟨"array of TVar", none, by decide +kernel, by decide⟩,
      by decide, by decide +kernel⟩,
    ⟨.out, ofStrings ["buffer"], none, by decide, by decide +kernel⟩]

/-- A way to write them. -/
def sampleTexts : List Text :=
  [" CONST\n first ,last: Integer =Max(1, 2)", "outer :array of TVar ", "out  buffer"]

theorem parseList_sample :
    List.Forall₂ Writes sampleGroups sampleTexts ∧
      parseList (join [semicolon] sampleTexts) =
        [⟨"first", "Integer", .const⟩, ⟨"last", "Integer", .const⟩,
          ⟨"outer", "array of TVar", .none⟩, ⟨"buffer", [], .out⟩] := by
  have blank : White [space] := by decide +kernel
  have written {g : Group} {t u : Text} (h : Writes g t) (heq : t = u) : Writes g u := heq ▸ h
  have hsample : List.Forall₂ Writes sampleGroups sampleTexts := by
    refine .cons ?const (.cons ?plain (.cons ?out .nil))
    case const =>
      have hgap : White "\n " := by decide +kernel
      exact written (.intro blank (.word (w := "CONST") (by decide) hgap (by decide))
        (.cons "first" blank .nil (.last "last")) (.withDefault .nil blank blank .nil) .nil)
        (by decide)
    case plain =>
      exact written (.intro .nil .none (.last "outer") (.typed blank .nil) blank) (by decide)
    case out =>
      have hgap : White "  " := by decide +kernel
      exact written (.intro .nil (.word (w := "out") (by decide) hgap (by decide)) (.last "buffer")
        .untyped .nil) (by decide)
  exact ⟨hsample, (parseList_written hsample).trans (by decide +kernel)⟩

end Parameter

end Routine

end PascalSurvey
