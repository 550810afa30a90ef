/-
PascalSurvey/Proofs/Xml/Tree.lean

Trees and the events that write them.  `Writes` is the relation between the content of an element
and the events for it: the text may be cut anywhere and stand anywhere among the children, and what
is no part of the tree may come in between.  A document is the content of no element: it has the
root as its only child, and its text is what stands around the root.

The builder takes content up as a whole (`run_writes`), whatever is open around it.  So a tag whose
element is still open at the end is on top of the stack (`opened_of_endsInside`), and the events of
a document, wherever they stop, are of three kinds (`IsDocument.take`).

Main result: the tree of a document is rebuilt from its events (`rootOf_written`).
-/
import PascalSurvey.Xml.Event

namespace PascalSurvey.Xml

/-! ### Events that write a tree -/

/-- An element without its text and children: what its tag says. -/
def Element.tag (e : Element) : Element := { e with text := [], children := [] }

theorem Element.tag_eq_self {e : Element} (htext : e.text = []) (hchildren : e.children = []) :
    e.tag = e := by
  cases e
  cases htext
  cases hchildren
  rfl

/-- The events write the content of an element, its text and its children. -/
inductive Writes : Text → List Element → List Event → Prop
  | nil : Writes [] [] []
  | text {s cs es} (t : Text) : Writes s cs es → Writes (t ++ s) cs (.text t :: es)
  | cdata {s cs es} (t : Text) : Writes s cs es → Writes (t ++ s) cs (.cdata t :: es)
  | other {s cs es} : Writes s cs es → Writes s cs (.other :: es)
  /-- Only a child without text and children may be written as one tag. -/
  | empty {s cs es} {c : Element} : c.text = [] → c.children = [] → Writes s cs es →
      Writes s (c :: cs) (.empty c.tag :: es)
  | element {s cs es inner} {c : Element} : Writes c.text c.children inner → Writes s cs es →
      Writes s (c :: cs) (.start c.tag :: (inner ++ .stop :: es))

/-- The events write a document: one root, with texts and what is no part of a tree around it. -/
def IsDocument (root : Element) (es : List Event) : Prop := ∃ text, Writes text [root] es

/-- The events end inside an element: behind its start tag there is only complete content. -/
def EndsInside (tag : Element) (es : List Event) : Prop :=
  ∃ before text children inner,
    es = before ++ .start tag :: inner ∧ Writes text children inner

/-- Whether an event is the beginning of an element. -/
def Event.beginsElement : Event → Bool
  | .start _ | .empty _ => true
  | _ => false

/-- The plainest events for an element: its tag, its text in one piece, its children, its end. -/
def Element.events (e : Element) : List Event :=
  .start e.tag :: .text e.text :: (e.children.flatMap events ++ [.stop])
termination_by e
decreasing_by
  next hc =>
  cases e
  have := List.sizeOf_lt_of_mem hc
  simp only [mk.sizeOf_spec] at this ⊢
  omega

theorem Writes.append {s s' : Text} {cs cs' : List Element} {es es' : List Event}
    (h : Writes s cs es) (h' : Writes s' cs' es') : Writes (s ++ s') (cs ++ cs') (es ++ es') := by
  induction h with
  | nil => exact h'
  | text t _ ih =>
    rw [List.append_assoc]
    exact .text t ih
  | cdata t _ ih =>
    rw [List.append_assoc]
    exact .cdata t ih
  | other _ ih => exact .other ih
  | empty htext hchildren _ ih => exact .empty htext hchildren ih
  | element hinner _ _ ih =>
    simp only [List.cons_append, List.append_assoc]
    exact .element hinner ih

theorem writes_flatMap {cs : List Element} (h : ∀ c ∈ cs, Writes [] [c] c.events) :
    Writes [] cs (cs.flatMap Element.events) := by
  induction cs with
  | nil => exact .nil
  | cons c cs ih =>
    rw [List.flatMap_cons]
    exact (h c List.mem_cons_self).append (ih fun d hd => h d (List.mem_cons_of_mem c hd))

/-- **Every element can be written.** -/
theorem writes_events (e : Element) : Writes [] [e] e.events := by
  have hchildren : Writes [] e.children (e.children.flatMap Element.events) :=
    writes_flatMap fun c hc => writes_events c
  rw [Element.events]
  have hcontent := Writes.text e.text hchildren
  rw [List.append_nil] at hcontent
  exact .element hcontent .nil
termination_by e
decreasing_by
  cases e
  have := List.sizeOf_lt_of_mem hc
  simp only [Element.mk.sizeOf_spec] at this ⊢
  omega

/-! ### The builder on content -/

namespace Builder

theorem run_cons (b : Builder) (e : Event) (es : List Event) :
    b.run (e :: es) = (b.step e).run es := rfl

theorem run_append (b : Builder) (es es' : List Event) :
    b.run (es ++ es') = (b.run es).run es' :=
  List.foldl_append

theorem addText_nil (b : Builder) : b.addText [] = b := by
  cases b with
  | mk opened root => cases opened with
    | nil => rfl
    | cons e outer =>
      cases e
      simp [addText]

theorem addText_append (b : Builder) (t u : Text) :
    b.addText (t ++ u) = (b.addText t).addText u := by
  cases b with
  | mk opened root => cases opened <;> simp [addText]

/-- Text and children do not get into each other's way. -/
theorem attach_addText (b : Builder) (t : Text) (c : Element) :
    (b.addText t).attach c = (b.attach c).addText t := by
  cases b with
  | mk opened root => cases opened <;> rfl

theorem foldl_attach_addText (cs : List Element) (b : Builder) (t : Text) :
    cs.foldl attach (b.addText t) = (cs.foldl attach b).addText t := by
  induction cs generalizing b with
  | nil => rfl
  | cons c cs ih => rw [List.foldl_cons, List.foldl_cons, attach_addText, ih]

theorem foldl_attach_opened (cs : List Element) (e : Element) (outer : List Element)
    (root : Option Element) :
    cs.foldl attach ⟨e :: outer, root⟩ =
      ⟨{ e with children := e.children ++ cs } :: outer, root⟩ := by
  induction cs generalizing e with
  | nil =>
    cases e
    simp
  | cons c cs ih => simp [attach, ih]

theorem foldl_attach_outside (cs : List Element) (root : Option Element) :
    cs.foldl attach ⟨[], root⟩ = ⟨[], root.or cs.head?⟩ := by
  induction cs generalizing root with
  | nil => simp
  | cons c cs ih => cases root <;> simp [attach, ih]

/-- A tag with the content of its element becomes the element. -/
theorem fill_tag (c : Element) (b : Builder) :
    (c.children.foldl attach { b with opened := c.tag :: b.opened }).addText c.text =
      { b with opened := c :: b.opened } := by
  rw [foldl_attach_opened]
  cases c
  rfl

/-- **Content is taken up as a whole,** whatever is open around it. -/
theorem run_writes {s : Text} {cs : List Element} {es : List Event} (h : Writes s cs es)
    (b : Builder) : b.run es = (cs.foldl attach b).addText s := by
  induction h generalizing b with
  | nil => exact b.addText_nil.symm
  | text t _ ih =>
    rw [run_cons, addText_append, ← foldl_attach_addText]
    exact ih (b.addText t)
  | cdata t _ ih =>
    rw [run_cons, addText_append, ← foldl_attach_addText]
    exact ih (b.addText t)
  | other _ ih => exact ih b
  | empty htext hchildren _ ih =>
    rw [run_cons, ih, Element.tag_eq_self htext hchildren]
    rfl
  | @element s cs es inner c _ _ ihInner ih =>
    -- the start tag opens the child, its content fills it, and the end tag closes it
    have hinner : (b.step (.start c.tag)).run inner = { b with opened := c :: b.opened } :=
      (ihInner _).trans (fill_tag c b)
    rw [run_cons, run_append, hinner, run_cons, ih]
    rfl

end Builder

/-! ### Documents, whole and cut off -/

variable {root tag : Element} {es : List Event}

theorem run_document (h : IsDocument root es) : Builder.start.run es = ⟨[], some root⟩ := by
  obtain ⟨text, hwrites⟩ := h
  rw [Builder.run_writes hwrites, Builder.start, Builder.foldl_attach_outside]
  rfl

/-- The element in which the events end is on top of the stack. -/
theorem opened_of_endsInside (h : EndsInside tag es) (b : Builder) :
    ∃ e outer, (b.run es).opened = e :: outer ∧ e.name = tag.name := by
  obtain ⟨before, text, children, inner, rfl, hwrites⟩ := h
  rw [Builder.run_append, Builder.run_cons, Builder.run_writes hwrites, Builder.step,
    Builder.foldl_attach_opened]
  exact ⟨_, _, rfl, rfl⟩

theorem run_of_no_element (h : ∀ e ∈ es, e.beginsElement = false) :
    Builder.start.run es = Builder.start := by
  induction es with
  | nil => rfl
  | cons e es ih =>
    have hstep : Builder.start.step e = Builder.start := by
      have hbegins := h e List.mem_cons_self
      cases e with
      | start _ => cases hbegins
      | empty _ => cases hbegins
      | stop => rfl
      | text _ => rfl
      | cdata _ => rfl
      | other => rfl
    rw [Builder.run_cons, hstep]
    exact ih fun e he => h e (List.mem_cons_of_mem _ he)

theorem EndsInside.append_left (h : EndsInside tag es) (before : List Event) :
    EndsInside tag (before ++ es) := by
  obtain ⟨front, text, children, inner, rfl, hwrites⟩ := h
  exact ⟨before ++ front, text, children, inner, (List.append_assoc ..).symm, hwrites⟩

/-- A prefix of two lists in a row stops in the first or goes on into the second. -/
theorem prefix_append_cases {α : Type} {l l₁ l₂ : List α} (h : l <+: l₁ ++ l₂) :
    l <+: l₁ ∨ ∃ r, r <+: l₂ ∧ l = l₁ ++ r := by
  rcases List.prefix_or_prefix_of_prefix h (List.prefix_append l₁ l₂) with hfirst | ⟨r, rfl⟩
  · exact .inl hfirst
  · exact .inr ⟨r, (List.prefix_append_right_inj l₁).mp h, rfl⟩

/-- What is left of the content with some children if the events break off: content with the first
of the children, or events that end inside an element. -/
def BreaksOff (cs : List Element) (es : List Event) : Prop :=
  (∃ text first, first <+: cs ∧ Writes text first es) ∨ ∃ tag, EndsInside tag es

theorem breaksOff_nil (cs : List Element) : BreaksOff cs [] :=
  .inl ⟨[], [], List.nil_prefix, .nil⟩

theorem BreaksOff.behind {s : Text} {ds cs : List Element} {front : List Event}
    (h : BreaksOff cs es) (hfront : Writes s ds front) : BreaksOff (ds ++ cs) (front ++ es) := by
  rcases h with ⟨text, first, hfirst, hwrites⟩ | ⟨tag, hinside⟩
  · exact .inl ⟨s ++ text, ds ++ first, (List.prefix_append_right_inj ds).mpr hfirst,
      hfront.append hwrites⟩
  · exact .inr ⟨tag, hinside.append_left front⟩

/-- **Content may break off anywhere.** -/
theorem Writes.breaksOff {s : Text} {cs : List Element} {es' : List Event} (h : Writes s cs es)
    (hcut : es' <+: es) : BreaksOff cs es' := by
  induction h generalizing es' with
  | nil =>
    rw [List.prefix_nil.mp hcut]
    exact breaksOff_nil []
  | text t _ ih =>
    rcases List.prefix_cons_iff.mp hcut with rfl | ⟨rest, rfl, hrest⟩
    · exact breaksOff_nil _
    · exact (ih hrest).behind (.text t .nil)
  | cdata t _ ih =>
    rcases List.prefix_cons_iff.mp hcut with rfl | ⟨rest, rfl, hrest⟩
    · exact breaksOff_nil _
    · exact (ih hrest).behind (.cdata t .nil)
  | other _ ih =>
    rcases List.prefix_cons_iff.mp hcut with rfl | ⟨rest, rfl, hrest⟩
    · exact breaksOff_nil _
    · exact (ih hrest).behind (.other .nil)
  | empty htext hchildren _ ih =>
    rcases List.prefix_cons_iff.mp hcut with rfl | ⟨rest, rfl, hrest⟩
    · exact breaksOff_nil _
    · exact (ih hrest).behind (.empty htext hchildren .nil)
  | @element s cs es inner c hinner _ ihInner ih =>
    rcases List.prefix_cons_iff.mp hcut with rfl | ⟨rest, rfl, hrest⟩
    · exact breaksOff_nil _
    · rcases prefix_append_cases hrest with hrest | ⟨behind, hbehind, rfl⟩
      · -- the events end behind the start tag of the child, or further inside
        rcases ihInner hrest with ⟨text, first, -, hwrites⟩ | ⟨tag, hinside⟩
        · exact .inr ⟨c.tag, [], text, first, rest, rfl, hwrites⟩
        · exact .inr ⟨tag, hinside.append_left [.start c.tag]⟩
      · rcases List.prefix_cons_iff.mp hbehind with rfl | ⟨last, rfl, hlast⟩
        · -- only the end tag of the child is missing
          rw [List.append_nil]
          exact .inr ⟨c.tag, [], c.text, c.children, inner, rfl, hinner⟩
        · have hchild := (ih hlast).behind (.element hinner .nil)
          simp only [List.cons_append, List.append_assoc, List.nil_append] at hchild
          exact hchild

/-- Without children no element begins. -/
theorem no_element_of_writes {s : Text} {cs : List Element} (h : Writes s cs es) (hcs : cs = []) :
    ∀ e ∈ es, e.beginsElement = false := by
  induction h with
  | nil => exact List.forall_mem_nil _
  | text t _ ih => exact List.forall_mem_cons.mpr ⟨rfl, ih hcs⟩
  | cdata t _ ih => exact List.forall_mem_cons.mpr ⟨rfl, ih hcs⟩
  | other _ ih => exact List.forall_mem_cons.mpr ⟨rfl, ih hcs⟩
  | empty => cases hcs
  | element => cases hcs

/-- **The events of a document, wherever they stop,** are still those of the document, or they end
inside an element, or no element has begun. -/
theorem IsDocument.take {es' : List Event} (h : IsDocument root es) (hcut : es' <+: es) :
    IsDocument root es' ∨ (∃ tag, EndsInside tag es') ∨ ∀ e ∈ es', e.beginsElement = false := by
  obtain ⟨text, hwrites⟩ := h
  rcases hwrites.breaksOff hcut with ⟨text', first, hfirst, hwrites'⟩ | hinside
  · rcases List.prefix_cons_iff.mp hfirst with rfl | ⟨rest, rfl, hrest⟩
    · exact .inr (.inr (no_element_of_writes hwrites' rfl))
    · rw [List.prefix_nil.mp hrest] at hwrites'
      exact .inl ⟨text', hwrites'⟩
  · exact .inr (.inl hinside)

/-! ### The root -/

theorem rootOf_of_opened {e : Element} {outer : List Element} (position : Nat)
    (h : (Builder.start.run es).opened = e :: outer) :
    rootOf es ⟨position, none⟩ = .error (.malformed position (.unclosedElement e.name)) := by
  rw [rootOf]
  dsimp only
  rw [h]

theorem rootOf_of_run (position : Nat) (found : Option Element)
    (h : Builder.start.run es = ⟨[], found⟩) :
    rootOf es ⟨position, none⟩ = found.elim (.error .missingRoot) .ok := by
  rw [rootOf]
  dsimp only
  rw [h]
  cases found <;> rfl

/-- **Main.**  The tree of a document is rebuilt from its events, if the reading meets no error.
* Every tree is written by some events, and all events that write it give it back.
* Events that end inside an element are malformed, and the error names the innermost element that is
  still open.
* Without the beginning of an element there is no root.
* If the events of a document stop anywhere, what there is of them falls under one of the three. -/
theorem rootOf_written (position : Nat) :
    (∀ root, ∃ es, IsDocument root es) ∧
      (∀ root es, IsDocument root es → rootOf es ⟨position, none⟩ = .ok root) ∧
      (∀ tag es, EndsInside tag es →
        rootOf es ⟨position, none⟩ = .error (.malformed position (.unclosedElement tag.name))) ∧
      (∀ es, (∀ e ∈ es, e.beginsElement = false) →
        rootOf es ⟨position, none⟩ = .error .missingRoot) ∧
      ∀ root es es', IsDocument root es → es' <+: es →
        IsDocument root es' ∨ (∃ tag, EndsInside tag es') ∨ ∀ e ∈ es', e.beginsElement = false := by
  refine ⟨?_, ?_, ?_, ?_, ?_⟩
  · intro root
    exact ⟨root.events, [], writes_events root⟩
  · intro root es h
    exact rootOf_of_run position (some root) (run_document h)
  · intro tag es h
    obtain ⟨e, outer, hopened, hname⟩ := opened_of_endsInside h .start
    rw [rootOf_of_opened position hopened, hname]
  · intro es h
    exact rootOf_of_run position none (run_of_no_element h)
  · intro root es es' h hcut
    exact h.take hcut

/-- An element with text before, between and behind its children. -/
def mixedElement : Element :=
  ⟨none, "p", [], "one two three", [⟨none, "br", [], [], []⟩, ⟨none, "b", [], "bold", []⟩]⟩

/-- Events for it, with a declaration and line breaks around it and a comment inside. -/
def mixedEvents : List Event :=
  .other :: .text "\n" :: .start mixedElement.tag ::
    ([.text "one ", .empty ⟨none, "br", [], [], []⟩, .other, .cdata "two ",
        .start ⟨none, "b", [], [], []⟩, .text "bo", .cdata "ld", .stop, .text "three"] ++
      [.stop, .text "\n"])

theorem isDocument_mixedEvents : IsDocument mixedElement mixedEvents := by
  have hbold : Writes "bold" [] [.text "bo", .cdata "ld"] := by
    have htext : Text.ofString "bold" = Text.ofString "bo" ++ (Text.ofString "ld" ++ []) := by
      decide +kernel
    rw [htext]
    exact .text _ (.cdata _ .nil)
  have hrest : Writes (Text.ofString "three" ++ []) [⟨none, "b", [], "bold", []⟩]
      (.start ⟨none, "b", [], [], []⟩ ::
        ([.text "bo", .cdata "ld"] ++ .stop :: [.text "three"])) :=
    .element hbold (.text _ .nil)
  have hcontent : Writes mixedElement.text mixedElement.children
      (.text "one " :: .empty ⟨none, "br", [], [], []⟩ :: .other :: .cdata "two " ::
        .start ⟨none, "b", [], [], []⟩ ::
          ([.text "bo", .cdata "ld"] ++ .stop :: [.text "three"])) := by
    have htext : mixedElement.text =
        Text.ofString "one " ++ (Text.ofString "two " ++ (Text.ofString "three" ++ [])) := by
      decide +kernel
    rw [htext]
    exact .text _ (.empty rfl rfl (.other (.cdata _ hrest)))
  exact ⟨_, .other (.text _ (.element hcontent (.text _ .nil)))⟩

theorem rootOf_mixedEvents :
    IsDocument mixedElement mixedEvents ∧ rootOf mixedEvents ⟨0, none⟩ = .ok mixedElement ∧
      EndsInside ⟨none, "b", [], [], []⟩ (mixedEvents.take 9) ∧
      rootOf (mixedEvents.take 9) ⟨0, none⟩ = .error (.malformed 0 (.unclosedElement "b")) ∧
      rootOf (mixedEvents.take 2) ⟨0, none⟩ = .error .missingRoot := by
  have hinside : EndsInside ⟨none, "b", [], [], []⟩ (mixedEvents.take 9) :=
    ⟨mixedEvents.take 7, _, _, [.text "bo"], rfl, .text _ .nil⟩
  obtain ⟨-, hwhole, hopen, hnone, -⟩ := rootOf_written 0
  exact ⟨isDocument_mixedEvents, hwhole _ _ isDocument_mixedEvents, hinside, hopen _ _ hinside,
    hnone _ (by simp [mixedEvents, Event.beginsElement])⟩

end PascalSurvey.Xml
