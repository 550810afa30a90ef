/-
PascalSurvey/Proofs/Outline/Clause.lean

Uses clauses as they are written.  Between two tokens may stand a `Filler`: white space and
comments in braces.  `Writes` says of a text that it writes an entry, for what may stand between its
tokens.  In an overlay the same entry is written with blanks in place of the fillers
(`Writes.masked`), and what stands behind an item does not change that (`Writes.mask_append`).
-/
import PascalSurvey.Proofs.Outline.Uses

namespace PascalSurvey.Outline

open Ascii Source

/-! ### What may be written -/

/-- What may stand between two tokens of a clause: ASCII white space and comments in braces. -/
inductive Filler : Text → Prop
  | nil : Filler []
  | blank {b : UInt8} {r : Text} (hascii : b < 0x80) (hblank : isBlankChar b.toNat = true)
      (hr : Filler r) : Filler ([b] ++ r)
  | comment {c r : Text} (hc : rbrace ∉ c) (hr : Filler r) :
      Filler (lbrace :: (c ++ [rbrace]) ++ r)

/-- The words that begin the sections of a unit. -/
def sectionWords : List Text := ["interface", "implementation"]

/-- A segment of a unit name: an ASCII identifier that begins no section. -/
structure Segment (s : Text) : Prop where
  start : ∃ b r, s = b :: r ∧ isIdentStart b = true
  bytes : ∀ b ∈ s, isIdentByte b = true
  notSection : ∀ word ∈ sectionWords, Text.eqFold s word = false

/-- The texts that write a dotted name. -/
inductive WritesName (gap : Text → Prop) : Text → Text → Prop
  | segment {s : Text} (hs : Segment s) : WritesName gap s s
  | dotted {s d e name t : Text} (hs : Segment s) (hd : gap d) (he : gap e)
      (hname : WritesName gap name t) :
      WritesName gap (s ++ dot :: name) (s ++ (d ++ dot :: (e ++ t)))

/-- The texts that write an entry: its name, and after `in` its path in quotes. -/
inductive Writes (gap : Text → Prop) : UsesEntry → Text → Prop
  | plain {d name t e : Text} (hd : gap d) (hname : WritesName gap name t) (he : gap e) :
      Writes gap ⟨name, none⟩ (d ++ (t ++ e))
  | located {d name t g h path e : Text} (hd : gap d) (hname : WritesName gap name t) (hg : gap g)
      (hgne : g ≠ []) (hh : gap h) (hhne : h ≠ []) (hpath : ∀ b ∈ path, b ≠ quote ∧ b ≠ newline)
      (he : gap e) :
      Writes gap ⟨name, some path⟩
        (d ++ (t ++ (g ++ ("in" ++ (h ++ quote :: (path ++ quote :: e))))))

/-! ### Overlays of what is written -/

theorem isBlankChar_ne {b c : UInt8} (hb : isBlankChar b.toNat = true)
    (hc : isBlankChar c.toNat = false) : b ≠ c := by
  rintro rfl
  rw [hb] at hc
  cases hc

theorem blanks_blanked (t : Text) : Blanks (blanked t) := fun b hb => by
  rcases isBlank_of_mem_blanked hb with rfl | rfl | rfl <;> decide

section
variable {f r : Text} {mode : Mask}

theorem standalone_blank {b : UInt8} (hblank : isBlankChar b.toNat = true) :
    ∀ c ∈ [b], ∀ r, regionAt? (c :: r) = none := by
  intro c hc
  rw [List.mem_singleton.mp hc]
  exact regionAt?_of_class (p := fun b => isBlankChar b.toNat) hblank (by decide)

theorem Filler.standalone (h : Filler f) : Standalone f := by
  induction h with
  | nil => exact standalone_nil
  | blank _ hblank _ ih => exact (standalone_codes (standalone_blank hblank)).append ih
  | comment hc _ ih => exact (standalone_brace hc).append ih

/-- In an overlay a filler is all blank. -/
theorem Filler.blanks_mask (h : Filler f) (mode : Mask) : Blanks (mask mode f) := by
  induction h with
  | nil =>
    rw [mask_nil]
    exact fun b hb => nomatch hb
  | blank hascii hblank _ ih =>
    have hcode := standalone_blank hblank
    rw [(standalone_codes hcode).mask_append, mask_codes hcode]
    exact List.forall_mem_cons.mpr ⟨⟨hascii, hblank⟩, ih⟩
  | comment hc _ ih =>
    rw [(standalone_brace hc).mask_append, mask_brace hc]
    exact List.forall_mem_append.mpr ⟨blanks_blanked _, ih⟩

theorem Filler.head_ne (h : Filler f) (hr : r.head? ≠ some quote) :
    (f ++ r).head? ≠ some quote := by
  cases h with
  | nil => exact hr
  | blank _ hblank _ => simpa using isBlankChar_ne hblank (by decide)
  | comment => exact fun h => absurd (Option.some.inj h) (by decide)

theorem mask_ne_nil {g : Text} (hg : g ≠ []) : mask mode g ≠ [] := by
  rw [← List.length_pos_iff, length_mask]
  exact List.length_pos_iff.mpr hg

end

theorem codes_of_identifier {s : Text} (hs : ∀ b ∈ s, isIdentByte b = true) :
    ∀ b ∈ s, ∀ r, regionAt? (b :: r) = none := fun b hb =>
  regionAt?_of_class (hs b hb) (by decide)

theorem codes_dot : ∀ b ∈ [dot], ∀ r, regionAt? (b :: r) = none := fun b hb r => by
  rw [List.mem_singleton.mp hb]
  exact regionAt?_eq_none r (by decide) (by decide) (by decide) (by decide)

section
variable {name t : Text} (h : WritesName Filler name t)
include h

theorem WritesName.standalone : Standalone t := by
  induction h with
  | segment hs => exact standalone_codes (codes_of_identifier hs.bytes)
  | dotted hs hd he _ ih =>
    exact (standalone_codes (codes_of_identifier hs.bytes)).append
      (hd.standalone.append ((standalone_codes codes_dot).append (he.standalone.append ih)))

theorem WritesName.masked (mode : Mask) : WritesName Blanks name (mask mode t) := by
  induction h with
  | segment hs =>
    rw [mask_codes (codes_of_identifier hs.bytes)]
    exact .segment hs
  | @dotted s d e name t hs hd he _ ih =>
    have hcodes := codes_of_identifier hs.bytes
    have hdot : mask mode (dot :: (e ++ t)) = dot :: mask mode (e ++ t) := by
      rw [← List.singleton_append, (standalone_codes codes_dot).mask_append, mask_codes codes_dot]
      rfl
    rw [(standalone_codes hcodes).mask_append, hd.standalone.mask_append, hdot,
      he.standalone.mask_append, mask_codes hcodes]
    exact .dotted hs (hd.blanks_mask mode) (he.blanks_mask mode) ih

end

/-- A path in quotes as an overlay shows it. -/
def maskedPath : Mask → Text → Text
  | .comments, path => path
  | .commentsAndLiterals, path => blanked path

theorem mask_quoted {path r : Text} (hpath : ∀ b ∈ path, b ≠ quote ∧ b ≠ newline)
    (hr : r.head? ≠ some quote) (mode : Mask) :
    mask mode (quote :: (path ++ quote :: r)) =
      quote :: (maskedPath mode path ++ quote :: mask mode r) := by
  have hregion : regionAt? (quote :: (path ++ [quote]) ++ r) =
      some (.literal, (quote :: (path ++ [quote])).length) := by
    show some (Region.literal, 1 + literalTail (path ++ [quote] ++ r)) = _
    rw [List.append_assoc, List.singleton_append, literalTail_pair hpath, if_neg hr]
    simp only [List.length_cons, List.length_append, List.length_nil]
    congr 2
    omega
  have htext : quote :: (path ++ quote :: r) = quote :: (path ++ [quote]) ++ r := by simp
  rw [htext, mask, pieces_region hregion, List.take_left, List.drop_left, List.flatMap_cons]
  cases mode with
  | comments => simp [Piece.masked, maskedPath, mask]
  | commentsAndLiterals =>
    have htail : blankLiteral (path ++ [quote]) = blanked path ++ [quote] := by
      rw [blankLiteral, if_pos List.getLast?_concat, List.dropLast_concat]
    simp [Piece.masked, maskedPath, htail, mask]

/-- An entry as an overlay shows it. -/
def UsesEntry.masked (mode : Mask) (e : UsesEntry) : UsesEntry :=
  { e with inPath := e.inPath.map (maskedPath mode) }

theorem codes_in : ∀ b ∈ ("in" : Text), ∀ r, regionAt? (b :: r) = none :=
  codes_of_identifier (List.all_eq_true.mp rfl)

section
variable {e : UsesEntry} {t : Text} (h : Writes Filler e t)
include h

/-- An item in front of a text that begins with no quote is a text of its own. -/
theorem Writes.mask_append (mode : Mask) {r : Text} (hr : r.head? ≠ some quote) :
    mask mode (t ++ r) = mask mode t ++ mask mode r := by
  cases h with
  | plain hd hname he =>
    exact (hd.standalone.append (hname.standalone.append he.standalone)).mask_append mode r
  | @located d name t g h path e hd hname hg _ hh _ hpath he =>
    have hfront : Standalone (d ++ (t ++ (g ++ ("in" ++ h)))) :=
      hd.standalone.append (hname.standalone.append (hg.standalone.append
        ((standalone_codes codes_in).append hh.standalone)))
    have htext (z : Text) : d ++ (t ++ (g ++ ("in" ++ (h ++ quote :: (path ++ quote :: e))))) ++ z =
        d ++ (t ++ (g ++ ("in" ++ h))) ++ quote :: (path ++ quote :: (e ++ z)) := by
      simp only [List.append_assoc, List.cons_append]
    have hnil := htext []
    rw [List.append_nil, List.append_nil] at hnil
    rw [htext, hnil, hfront.mask_append, hfront.mask_append,
      mask_quoted hpath (he.head_ne hr), he.standalone.mask_append]
    have hend : e.head? ≠ some quote := by simpa using he.head_ne (r := []) (by simp)
    rw [mask_quoted hpath hend]
    simp only [List.append_assoc, List.cons_append]

/-- **In an overlay an item writes the same entry**, with its path as the overlay shows it. -/
theorem Writes.masked (mode : Mask) : Writes Blanks (e.masked mode) (mask mode t) := by
  cases h with
  | plain hd hname he =>
    rw [hd.standalone.mask_append, hname.standalone.mask_append]
    exact .plain (hd.blanks_mask mode) (hname.masked mode) (he.blanks_mask mode)
  | @located d name t g h path e hd hname hg hgne hh hhne hpath he =>
    have hend : e.head? ≠ some quote := by simpa using he.head_ne (r := []) (by simp)
    rw [hd.standalone.mask_append, hname.standalone.mask_append, hg.standalone.mask_append,
      (standalone_codes codes_in).mask_append, mask_codes codes_in, hh.standalone.mask_append,
      mask_quoted hpath hend]
    refine .located (hd.blanks_mask mode) (hname.masked mode) (hg.blanks_mask mode)
      (mask_ne_nil hgne) (hh.blanks_mask mode) (mask_ne_nil hhne) ?_ (he.blanks_mask mode)
    cases mode with
    | comments => exact hpath
    | commentsAndLiterals =>
      intro b hb
      obtain ⟨a, ha, rfl⟩ := List.mem_map.mp hb
      obtain ⟨-, hbreak⟩ := hpath a ha
      rw [blankByte]
      split
      · next hor =>
        rcases hor with rfl | rfl
        · exact absurd rfl hbreak
        · decide
      · decide

end

end PascalSurvey.Outline
