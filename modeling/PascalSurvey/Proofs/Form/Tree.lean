/-
PascalSurvey/Proofs/Form/Tree.lean

Component trees and the lines that write them.  A `Node` is a component, with what is inside it, or
a collection of items; `Writes` is the relation between nodes and lines, in which plain lines may
stand everywhere.  Components and items both open a level, and each of them closes its own.

So lines that write nodes leave the depth as it was, and give the components of the nodes from there
on (`componentsFrom_written`), whatever lines come after them.  The lines of a text are the ones it
was put together from, however each of them ends (`map_ofText_lines`).

Main result: `read_written`.
-/
import PascalSurvey.Proofs.Form.Line
import PascalSurvey.Proofs.Text.Crlf

namespace PascalSurvey.Form

open Ascii Text Utf8

/-! ### Trees -/

/-- A component or a collection. -/
inductive Node where
  | component (name className : Text) (inside : List Node)
  | collection (items : List (List Node))

/-- The components of a node that stands at a depth, in the order in which they begin. -/
def Node.components (depth : Nat) : Node → List FormComponent
  | .component name className inside =>
    ⟨name, className, depth⟩ :: inside.flatMap (components (depth + 1))
  | .collection items => items.flatMap fun item => item.flatMap (components (depth + 1))
termination_by node => node
decreasing_by
  · have := List.sizeOf_lt_of_mem ‹_ ∈ inside›
    simp only [component.sizeOf_spec]
    omega
  · have := List.sizeOf_lt_of_mem ‹_ ∈ items›
    have := List.sizeOf_lt_of_mem ‹_ ∈ item›
    simp only [collection.sizeOf_spec]
    omega

/-- What lines can write: what is inside a component or an item, or the items of a collection. -/
inductive Block where
  | inside (nodes : List Node)
  | items (list : List (List Node))

/-- The components of a block that stands at a depth. -/
def Block.components (depth : Nat) : Block → List FormComponent
  | .inside nodes => nodes.flatMap (Node.components depth)
  | .items list => list.flatMap fun item => item.flatMap (Node.components (depth + 1))

/-! ### How they are written -/

/-- The line that begins a collection: a property whose value is an opening angle bracket. -/
inductive OpensCollection : Text → Prop
  | intro {d name gap e} : White d → 0 < wordRun name →
      toLower (name.take (wordRun name)) ∉ reservedWords → White gap → White e →
      OpensCollection (d ++ (name ++ equals :: (gap ++ less :: e)))

/-- The lines write the block. -/
inductive Writes : Block → List Text → Prop
  | nil : Writes (.inside []) []
  | plain {l nodes ls} : IsPlain l → Writes (.inside nodes) ls → Writes (.inside nodes) (l :: ls)
  | component {l name className inside ls stop nodes ls'} : Opens name className l →
      Writes (.inside inside) ls → IsWord "end" stop → Writes (.inside nodes) ls' →
      Writes (.inside (.component name className inside :: nodes)) (l :: (ls ++ stop :: ls'))
  | collection {l items ls nodes ls'} : OpensCollection l → Writes (.items items) ls →
      Writes (.inside nodes) ls' → Writes (.inside (.collection items :: nodes)) (l :: (ls ++ ls'))
  /-- The last item closes the collection as well. -/
  | lastItem {l nodes ls stop} : IsWord "item" l → Writes (.inside nodes) ls →
      IsWord "end>" stop → Writes (.items [nodes]) (l :: (ls ++ [stop]))
  | item {l nodes ls stop items ls'} : IsWord "item" l → Writes (.inside nodes) ls →
      IsWord "end" stop → Writes (.items items) ls' →
      Writes (.items (nodes :: items)) (l :: (ls ++ stop :: ls'))

/-- The text consists of the lines.  Each ends with a line feed or with a carriage return and a line
feed, but the last one may also end with the text. -/
inductive Terminated : List Text → Text → Prop
  | nil : Terminated [] []
  | last {l} : newline ∉ l → l ≠ [] → Terminated [l] l
  | lf {l ls t} : newline ∉ l → Terminated ls t → Terminated (l :: ls) (l ++ newline :: t)
  | crlf {l ls t} : newline ∉ l → Terminated ls t → Terminated (l :: ls) (l ++ cr :: newline :: t)

/-- The text is a form: one component, from its first line to its last. -/
inductive WritesForm (name className : Text) (inside : List Node) : Text → Prop
  | intro {l ls stop t} : Opens name className l → Writes (.inside inside) ls →
      IsWord "end" stop → Terminated (l :: (ls ++ [stop])) t → WritesForm name className inside t

section
variable {b : Block} {d l name className r t word : Text} {ls : List Text} {inside : List Node}

/-! ### Levels -/

theorem OpensCollection.isPlain (h : OpensCollection l) : IsPlain l := by
  obtain ⟨hd, hname, hfirst, -, -⟩ := h
  exact .property _ hd hname hfirst

/-- What is inside a level stands one deeper, and the line that closes it goes back. -/
theorem componentsFrom_level {nodes : List Node} {stop : Text}
    (hinside : ∀ depth rest, componentsFrom depth (ls.map Line.ofText ++ rest) =
      (Block.inside nodes).components depth ++ componentsFrom depth rest)
    (hstop : Line.ofText stop = .close) (depth : Nat) (ls' : List Text) (rest : List Line) :
    componentsFrom (depth + 1) ((ls ++ stop :: ls').map Line.ofText ++ rest) =
      nodes.flatMap (Node.components (depth + 1)) ++
        componentsFrom depth (ls'.map Line.ofText ++ rest) := by
  rw [List.map_append, List.append_assoc, hinside, List.map_cons, List.cons_append, hstop,
    componentsFrom, Nat.add_sub_cancel, Block.components]

/-- **Lines that write a block leave the depth as it was**, and give the components of the block. -/
theorem componentsFrom_written (h : Writes b ls) (depth : Nat) (rest : List Line) :
    componentsFrom depth (ls.map Line.ofText ++ rest) =
      b.components depth ++ componentsFrom depth rest := by
  induction h generalizing depth rest with
  | nil => simp [Block.components]
  | plain hplain _ ih =>
    rw [List.map_cons, List.cons_append, ofText_plain hplain, componentsFrom, ih]
  | component hopens _ hstop _ ihInside ih =>
    rw [List.map_cons, List.cons_append, ofText_opens hopens, componentsFrom,
      componentsFrom_level ihInside (ofText_close (.inl hstop)), ih]
    simp [Block.components, Node.components]
  | collection hopens _ _ ihItems ih =>
    rw [List.map_cons, List.cons_append, ofText_plain hopens.isPlain, componentsFrom,
      List.map_append, List.append_assoc, ihItems, ih]
    simp [Block.components, Node.components]
  | lastItem hitem _ hstop ih =>
    rw [List.map_cons, List.cons_append, ofText_item hitem, componentsFrom,
      componentsFrom_level ih (ofText_close (.inr hstop))]
    simp [Block.components]
  | item hitem _ hstop _ ihItem ih =>
    rw [List.map_cons, List.cons_append, ofText_item hitem, componentsFrom,
      componentsFrom_level ihItem (ofText_close (.inl hstop)), ih]
    simp [Block.components]

/-! ### Lines -/

/-- A carriage return at the end of a line makes no difference. -/
theorem ofText_withoutCr (l : Text) : Line.ofText (withoutCr l) = Line.ofText l := by
  have htrim : trim (withoutCr l) = trim l := by
    rw [withoutCr]
    split
    · next hlast =>
      obtain ⟨u, rfl⟩ := List.getLast?_eq_some_iff.mp hlast
      rw [List.dropLast_concat, trim_behind isGap_cr]
    · rfl
  rw [Line.ofText, htrim, Line.ofText]

/-- **The lines of a text say what those say that it consists of.** -/
theorem map_ofText_lines (h : Terminated ls t) :
    (lines t).map Line.ofText = ls.map Line.ofText := by
  induction h with
  | nil => rfl
  | @last l hl hne =>
    have hlines : lines l = [l] := by
      rw [lines, split_line hl]
      cases l with
      | nil => exact absurd rfl hne
      | cons => rfl
    rw [hlines]
  | lf hl _ ih => rw [lines_newline hl, List.map_cons, ih, ofText_withoutCr, List.map_cons]
  | @crlf l ls t hl _ ih =>
    have hline : newline ∉ l ++ [cr] := newline_not_mem_concat_cr hl
    have hcr : withoutCr (l ++ [cr]) = l := by
      rw [withoutCr, if_pos List.getLast?_concat, List.dropLast_concat]
    rw [List.append_cons, lines_newline hline, List.map_cons, ih, hcr, List.map_cons]

theorem Terminated.head (h : Terminated (l :: ls) t) : ∃ r, t = l ++ r := by
  cases h with
  | last => exact ⟨[], (List.append_nil _).symm⟩
  | lf => exact ⟨_, rfl⟩
  | crlf => exact ⟨_, rfl⟩

/-- Lines can end the same way throughout. -/
theorem terminated_flatMap (h : ∀ l ∈ ls, newline ∉ l) :
    Terminated ls (ls.flatMap (· ++ [newline])) ∧
      Terminated ls (ls.flatMap (· ++ [cr, newline])) := by
  induction ls with
  | nil => exact ⟨.nil, .nil⟩
  | cons l ls ih =>
    obtain ⟨hlf, hcrlf⟩ := ih fun l hl => h l (List.mem_cons_of_mem _ hl)
    have hl := h l List.mem_cons_self
    rw [List.flatMap_cons, List.flatMap_cons, List.append_assoc, List.append_assoc]
    exact ⟨.lf hl hlf, .crlf hl hcrlf⟩

/-! ### The beginning of the file -/

/-- A form begins with white space, or with the first letter of a word that begins a component. -/
theorem WritesForm.first (h : WritesForm name className inside t) (hblank : blankRun t = 0) :
    ∃ b r, t = b :: r ∧ (lower b = 0x6F ∨ lower b = 0x69) := by
  obtain ⟨hopens, -, -, hlines⟩ := h
  obtain ⟨r, rfl⟩ := hlines.head
  cases hopens with
  | @intro d word e₁ e₂ e₃ c e hd hword =>
    rw [List.append_assoc, blankRun, run_white hd] at hblank
    obtain rfl : d = [] := List.length_eq_zero_iff.mp (by omega)
    cases word with
    | nil => exact absurd hword (by decide)
    | cons b word =>
      refine ⟨b, _, rfl, ?_⟩
      have hhead := (by decide : ∀ w ∈ headWords, w.head? = some 0x6F ∨ w.head? = some 0x69) _ hword
      simpa [toLower] using hhead

theorem WritesForm.not_mark (h : WritesForm name className inside t) :
    after? byteOrderMark t = none := by
  rw [Option.eq_none_iff_forall_ne_some]
  intro r hr
  rw [after?_eq_some_iff] at hr
  -- the mark is no white space
  have hread : readHead 0xEF (0xBB :: 0xBF :: r) = .scalar 0xFEFF 2 := rfl
  have hblank : blankRun t = 0 := by
    rw [hr, blankRun, byteOrderMark, List.cons_append, List.cons_append, List.singleton_append, run,
      hread]
    rfl
  obtain ⟨b, r', ht, hb⟩ := h.first hblank
  rw [hr] at ht
  rw [← (List.cons.inj ht).1] at hb
  revert hb
  decide

theorem WritesForm.not_binary (h : WritesForm name className inside t) (r : Text) :
    t ≠ binarySignature ++ r := by
  intro hr
  have hblank : blankRun t = 0 := by
    rw [hr]
    exact run_eq_zero (b := 0x54) (by decide) (by decide) _
  obtain ⟨b, r', ht, hb⟩ := h.first hblank
  rw [hr] at ht
  have hfirst : (0x54 : UInt8) = b := (List.cons.inj ht).1
  rw [← hfirst] at hb
  revert hb
  decide

/-! ### Whole files -/

/-- **Bytes that decode to a form are read as it**, with or without a byte order mark. -/
theorem read_decoded {bytes : List UInt8} (h : WritesForm name className inside t)
    (hbytes : lossy (withoutMark bytes) = t) (unitName : Text) (file : Path) :
    read bytes unitName file = .parsed
      ⟨name, className, unitName, file, (Node.component name className inside).components 0⟩ := by
  have hbinary : startsWith (withoutMark bytes) binarySignature = false := by
    rw [Bool.eq_false_iff]
    intro hstart
    obtain ⟨r, hr⟩ := Option.isSome_iff_exists.mp hstart
    rw [after?_eq_some_iff] at hr
    rw [hr, lossy_append (by decide +kernel)] at hbytes
    exact h.not_binary _ hbytes.symm
  have hcomponents : componentsFrom 0 ((lines t).map Line.ofText) =
      (Node.component name className inside).components 0 := by
    obtain ⟨hopens, hinside, hstop, hlines⟩ := h
    have := componentsFrom_written (.component hopens hinside hstop .nil) 0 []
    rw [map_ofText_lines hlines, ← List.append_nil (List.map _ _), this]
    simp [Block.components, componentsFrom]
  rw [read]
  simp only [hbinary, hbytes, hcomponents, Bool.false_eq_true, if_false]
  rw [Node.components]

/-- **Main.** Forms are read as they are written.  A text form of a tree, with any indentation,
letter case and line ends, with any properties among the components and collections, is read as the
form of its root: the components come in the order in which they begin, each with its name, its
class and the number of components and items around it. -/
theorem read_written (h : WritesForm name className inside t) (unitName : Text) (file : Path) :
    (isValid t = true → read t unitName file = .parsed
      ⟨name, className, unitName, file, (Node.component name className inside).components 0⟩) ∧
    ∀ bytes, lossy (withoutMark bytes) = t → read bytes unitName file = .parsed
      ⟨name, className, unitName, file, (Node.component name className inside).components 0⟩ := by
  refine ⟨fun hvalid => read_decoded h ?_ unitName file, fun bytes hbytes =>
    read_decoded h hbytes unitName file⟩
  rw [withoutMark, h.not_mark, Option.getD_none, lossy_of_isValid hvalid]

end

/-- What is inside a component: a collection, an item of which has a component, and a component. -/
def sampleNodes : List Node :=
  [.collection [[], [.component "Inner" "TInner" []]], .component "Frame" "TFrame" []]

/-- The component with that inside. -/
def sampleLines : List Text :=
  ["object Main: TMain", "  Caption = 'end'", "    #13", "  Columns = <", "    item",
    "      Width = 5", "    END", "    item", "      object Inner: TInner", "      end", "    end>",
    "  INLINE Frame: TFrame [1]", "\tEnding = \x7b", "    0AFE\x7d", "  end", "end"]

def sampleText : Text := sampleLines.flatMap (· ++ [cr, newline])

theorem read_sample :
    WritesForm "Main" "TMain" sampleNodes sampleText ∧
      read sampleText "Main" "Main.dfm" = .parsed ⟨"Main", "TMain", "Main", "Main.dfm",
        [⟨"Main", "TMain", 0⟩, ⟨"Inner", "TInner", 2⟩, ⟨"Frame", "TFrame", 1⟩]⟩ := by
  have hblanks : White [space] ∧ White [tab] ∧ White "  " ∧ White "    " ∧ White "      " := by
    decide +kernel
  obtain ⟨hspace, htab, htwo, hfour, hsix⟩ := hblanks
  have opens {d c l : Text} (w name className : Text) (hd : White d)
      (hdata : toLower w ∈ headWords ∧ IsName name ∧ IsName className)
      (hc : WritesClass className c) (hl : d ++ (w ++ space :: name ++ colon :: (space :: c)) = l) :
      Opens name className l := by
    have := Opens.intro hd hdata.1 .nil hdata.2.1 .nil hspace hdata.2.2 hc .nil
    simpa [← hl] using this
  have property {d l : Text} (n v : Text) (hd : White d)
      (hn : 0 < wordRun n ∧ toLower (n.take (wordRun n)) ∉ reservedWords)
      (hl : d ++ (n ++ equals :: v) = l) : IsPlain l := hl ▸ .property v hd hn.1 hn.2
  have single {k d l : Text} (w : Text) (hd : White d) (hw : toLower w = k)
      (hl : d ++ (w ++ []) = l) : IsWord k l := hl ▸ .intro hd hw .nil
  have hcolumns : OpensCollection "  Columns = <" :=
    @OpensCollection.intro "  " "Columns " [space] [] htwo (by decide +kernel) (by decide +kernel)
      hspace .nil
  have hchar : IsPlain "    #13" := @IsPlain.continued "    " numberSign "13" hfour (by decide)
  have hinner := Writes.component
    (opens (l := "      object Inner: TInner") "object" "Inner" "TInner" hsix (by decide +kernel)
      .plain rfl)
    .nil (single (l := "      end") "end" hsix (by decide) rfl) .nil
  have hitems := Writes.item (single (l := "    item") "item" hfour (by decide) rfl)
    (.plain (property (l := "      Width = 5") "Width " " 5" hsix (by decide +kernel) rfl) .nil)
    (single (l := "    END") "END" hfour (by decide) rfl)
    (.lastItem (single (l := "    item") "item" hfour (by decide) rfl) hinner
      (single (l := "    end>") "end>" hfour (by decide) rfl))
  have hdata : ∀ b ∈ ofString "0AFE\x7d", isDataByte b = true := by decide +kernel
  have hframe := Writes.component
    (opens (l := "  INLINE Frame: TFrame [1]") "INLINE" "Frame" "TFrame" htwo (by decide +kernel)
      (.indexed (by decide) hspace (by decide) (by decide +kernel : Ink "[1]")) rfl)
    (.plain (property (l := "\tEnding = \x7b") "Ending " " \x7b" htab (by decide +kernel) rfl)
      (.plain (.digits hfour hdata .nil) .nil))
    (single (l := "  end") "end" htwo (by decide) rfl) .nil
  have hinside : Writes (.inside sampleNodes) (sampleLines.tail.dropLast) :=
    .plain (property (l := "  Caption = 'end'") "Caption " " 'end'" htwo (by decide +kernel) rfl)
      (.plain hchar (.collection hcolumns hitems hframe))
  have hform : WritesForm "Main" "TMain" sampleNodes sampleText :=
    .intro
      (opens (l := "object Main: TMain") "object" "Main" "TMain" .nil (by decide +kernel) .plain rfl)
      hinside
      (single (l := "end") "end" .nil (by decide) rfl) (terminated_flatMap (by decide +kernel)).2
  refine ⟨hform, ((read_written hform _ _).1 (by decide +kernel)).trans ?_⟩
  simp [sampleNodes, Node.components]

end PascalSurvey.Form
