/-
PascalSurvey/Xml/Event.lean

The events of an XML document.  `events` reads a text from left to right into start tags, end
tags, empty elements, texts and character data, with entities replaced and namespaces
resolved, and stops at the first error; comments, instructions and the document type are events
too, of which the tree keeps nothing.  `rootOf` puts the events together to a tree, and `parse`
does both.

Positions count the bytes behind a byte order mark.
-/
import PascalSurvey.Xml.Attribute
import PascalSurvey.Xml.Element
import PascalSurvey.Xml.Entity

namespace PascalSurvey.Xml

open Ascii

/-! ### Namespaces -/

/-- The namespaces in force: each prefix with its name, innermost first.  The empty prefix is
for names without one. -/
abbrev Scope := List (Text × Text)

/-- The namespace of the prefix `xml`. -/
def xmlSpace : Text := "http://www.w3.org/XML/1998/namespace"

/-- The namespace of the prefix `xmlns`. -/
def xmlnsSpace : Text := "http://www.w3.org/2000/xmlns/"

/-- The namespaces that are always bound. -/
def initialScope : Scope :=
  [(Text.ofString "xml", xmlSpace), (Text.ofString "xmlns", xmlnsSpace)]

/-- The prefix that an attribute binds. -/
def declares? (key : Text) : Option Text :=
  match Text.after? "xmlns" key with
  | some [] => some []
  | some (colon :: p) => some p
  | _ => none

/-- What is wrong with an attribute as a declaration of a prefix: `xml` has its one namespace,
`xmlns` is not declared at all, and no other prefix has the namespace of either. -/
def misbinds? (a : Attribute) : Option Error :=
  (Text.after? "xmlns:" a.key).bind fun p =>
    if p = "xml" then if a.value = xmlSpace then none else some (.reservedPrefix p a.value)
    else if p = "xmlns" then some (.reservedPrefix p a.value)
    else if a.value = xmlSpace ∨ a.value = xmlnsSpace then some (.reservedSpace p a.value)
    else none

/-- The scope of an element with the given tag text behind its name. -/
def Scope.extend (scope : Scope) (tag : Text) : Scope :=
  ((declared tag).filterMap fun a => (declares? a.key).map (·, a.value)).reverse ++ scope

/-- A name before and after its first colon. -/
def splitName (name : Text) : Option Text × Text :=
  match Text.cut? colon name with
  | some (p, local_) => (some p, local_)
  | none => (none, name)

/-- The namespace of an element name.  An empty namespace name is none. -/
def Scope.resolve (scope : Scope) (name : Text) : Option Text :=
  let found := match (splitName name).1 with
    | none => scope.lookup []
    | some [] => none
    | some p => scope.lookup p
  found.filter (!·.isEmpty)

/-! ### Events -/

/-- A part of a document. -/
inductive Event where
  /-- A start tag, as the element without content. -/
  | start (e : Element)
  /-- An element without content. -/
  | empty (e : Element)
  | stop
  | text (t : Text)
  /-- Character data that is not to be unescaped. -/
  | cdata (t : Text)
  /-- A comment, an instruction or a document type. -/
  | other
  deriving Repr

/-- How the reading of a document ended, and where. -/
structure Ending where
  position : Nat
  error : Option Error
  deriving Repr

/-- The element of a tag, without content. -/
def elementOf (scope : Scope) (name tag : Text) : Element :=
  { space := scope.resolve name
    name := (splitName name).2
    attributes := (wellFormed tag).map fun a =>
      ((splitName a.key).2, match unescape a.value with | .ok v => v | .error _ => a.value)
    text := []
    children := [] }

/-! ### Where markup ends

Each function takes the text behind `<` and gives the distance to the closing `>`. -/

/-- The first `>` before which `ok` accepts the bytes so far, which it gets in reverse with
their number. -/
def closeAfter? (ok : Nat → Text → Bool) (n : Nat) (before : Text) : Text → Option Nat
  | [] => none
  | b :: r =>
    if b = greater ∧ ok n before then some n else closeAfter? ok (n + 1) (b :: before) r

/-- A comment is at least `!----` and ends with two hyphens. -/
def commentClose? (t : Text) : Option Nat :=
  closeAfter? (fun n before => 4 < n && before.take 2 == [minus, minus]) 0 [] t

/-- Character data ends with two brackets. -/
def cdataClose? (t : Text) : Option Nat :=
  closeAfter? (fun _ before => before.take 2 == [rbracket, rbracket]) 0 [] t

/-- An instruction ends with a question mark, which may be the one that opens it. -/
def instructionClose? (t : Text) : Option Nat :=
  closeAfter? (fun _ before => before.head? == some question) 0 [] t

/-- A document type ends with the `>` that balances the `<` inside it. -/
def doctypeClose? (balance n : Nat) : Text → Option Nat
  | [] => none
  | b :: r =>
    if b = less then doctypeClose? (balance + 1) (n + 1) r
    else if b = greater then
      if balance = 0 then some n else doctypeClose? (balance - 1) (n + 1) r
    else doctypeClose? balance (n + 1) r

/-- A tag ends outside quotes; `inside` is the quote that is open. -/
def tagClose? (inside : Option UInt8) (n : Nat) : Text → Option Nat
  | [] => none
  | b :: r => match inside with
    | some q => tagClose? (if b = q then none else some q) (n + 1) r
    | none =>
      if b = greater then some n
      else tagClose? (if b = quote ∨ b = doubleQuote then some b else none) (n + 1) r

/-! ### Markup -/

/-- A piece of markup, between `<` and `>`. -/
inductive Markup where
  /-- Nothing that matters. -/
  | ignored
  | cdata (t : Text)
  /-- A start tag: its name, the text behind the name, and whether the element is empty. -/
  | start (name tag : Text) (isEmpty : Bool)
  /-- An end tag, by its name. -/
  | stop (name : Text)
  deriving Repr, DecidableEq

/-- Markup that closes at `n`, or an error at the end of the text; `size` counts the bytes
behind `<`. -/
def closed (t : Text) (n : Option Nat) (missing : Error) (read : Text → Except Error Markup) :
    Nat × Except Error Markup :=
  match n with
  | some n => (n + 1, read (t.take n))
  | none => (t.length, .error missing)

/-- Markup behind an exclamation mark, as a whole. -/
def readBang (t : Text) : Nat × Except Error Markup :=
  match t with
  | bang :: lbracket :: _ => closed t (cdataClose? t) .unclosedCdata fun content =>
    match Text.after? "![CDATA[" content with
    | some data => .ok (.cdata (data.take (data.length - 2)))
    | none => .error .unclosedCdata
  | bang :: minus :: _ => closed t (commentClose? t) .unclosedComment fun content =>
    if Text.startsWith content "!--" then .ok .ignored else .error .unclosedComment
  | bang :: d :: _ =>
    if lower d = 0x64 then
      closed t (doctypeClose? 0 0 t) .unclosedDoctype fun content =>
        match Text.afterFold? "!DOCTYPE" content with
        | some rest => if rest.all isSpace then .error .missingDoctypeName else .ok .ignored
        | none => .error .unclosedDoctype
    else (0, .error .invalidBang)
  | _ => (0, .error .invalidBang)

/-- An end tag without the spaces behind its name; a name of spaces stays. -/
def readEnd (content : Text) : Markup :=
  let name := (content.reverse.dropWhile isSpace).reverse
  .stop (if name.isEmpty then content else name)

/-- A start tag or an empty element. -/
def readStart (content : Text) : Markup :=
  let isEmpty := content.getLast? = some slash
  let content := if isEmpty then content.dropLast else content
  let name := content.takeWhile (!isSpace ·)
  .start name (content.drop name.length) isEmpty

/-- The markup behind `<`, and the number of bytes that reading it takes. -/
def readMarkup (t : Text) : Nat × Except Error Markup :=
  match t with
  | [] => (0, .error .unclosedTag)
  | bang :: _ => readBang t
  | slash :: _ => closed t (tagClose? none 0 t) .unclosedTag fun content =>
    .ok (readEnd content.tail)
  | question :: _ => closed t (instructionClose? t) .unclosedInstruction fun content =>
    if 1 < content.length then .ok .ignored else .error .unclosedInstruction
  | _ => closed t (tagClose? none 0 t) .unclosedTag fun content => .ok (readStart content)

/-! ### Reading -/

/-- The open elements, innermost first, each with its name and the scope around it. -/
abbrev Open := List (Text × Scope)

/-- Puts an event before those of the rest. -/
def before (e : Event) (rest : List Event × Ending) : List Event × Ending := (e :: rest.1, rest.2)

/-- The events of a text at a position inside the given open elements and their scope. -/
def eventsFrom (position : Nat) (opened : Open) (scope : Scope) :
    Text → List Event × Ending
  | [] => ([], ⟨position, none⟩)
  | b :: r =>
    if b = less then
      match readMarkup r with
      | (n, .error e) => ([], ⟨position + 1 + n, some e⟩)
      | (n, .ok markup) =>
        let next := position + 1 + n
        match markup with
        | .ignored => before .other (eventsFrom next opened scope (r.drop n))
        | .cdata t => before (.cdata t) (eventsFrom next opened scope (r.drop n))
        | .start name tag isEmpty => match (declared tag).findSome? misbinds? with
          | some e => ([], ⟨next, some e⟩)
          | none =>
            let inner := scope.extend tag
            let e := elementOf inner name tag
            if isEmpty then before (.empty e) (eventsFrom next opened scope (r.drop n))
            else before (.start e) (eventsFrom next ((name, scope) :: opened) inner (r.drop n))
        | .stop name => match opened with
          | [] => ([], ⟨next, some (.unmatchedEnd name)⟩)
          | (expected, outer) :: opened =>
            if name = expected then before .stop (eventsFrom next opened outer (r.drop n))
            else ([], ⟨next, some (.mismatchedEnd expected name)⟩)
    else
      let more := r.takeWhile (· != less)
      let next := position + 1 + more.length
      match unescape (b :: more) with
      | .error e => ([], ⟨next, some e⟩)
      | .ok t => before (.text t) (eventsFrom next opened scope (r.drop more.length))
termination_by t => t.length
decreasing_by all_goals simp only [List.length_drop, List.length_cons]; omega

/-- The events of a document. -/
def events (t : Text) : List Event × Ending :=
  eventsFrom 0 [] initialScope ((Text.after? [0xEF, 0xBB, 0xBF] t).getD t)

/-! ### Trees -/

/-- An unfinished tree: the open elements, innermost first, and the finished root. -/
structure Builder where
  opened : List Element
  root : Option Element
  deriving Repr

namespace Builder

def start : Builder := ⟨[], none⟩

/-- Adds a finished element to the innermost open one.  Outside all elements the first one is
the root. -/
def attach (b : Builder) (e : Element) : Builder :=
  match b.opened with
  | [] => { b with root := b.root.or (some e) }
  | parent :: outer =>
    { b with opened := { parent with children := parent.children ++ [e] } :: outer }

/-- Adds text to the innermost open element; outside all elements it is dropped. -/
def addText (b : Builder) (t : Text) : Builder :=
  match b.opened with
  | [] => b
  | e :: outer => { b with opened := { e with text := e.text ++ t } :: outer }

def step (b : Builder) : Event → Builder
  | .start e => { b with opened := e :: b.opened }
  | .empty e => b.attach e
  | .text t => b.addText t
  | .cdata t => b.addText t
  | .other => b
  | .stop => match b.opened with
    | [] => b
    | e :: outer => { b with opened := outer }.attach e

def run (b : Builder) (es : List Event) : Builder := es.foldl step b

end Builder

/-- Why a document has no tree. -/
inductive DocumentError where
  | malformed (position : Nat) (error : Error)
  | missingRoot
  | empty
  deriving Repr, DecidableEq

/-- The root of the tree that events write. -/
def rootOf (es : List Event) (ending : Ending) : Except DocumentError Element :=
  match ending.error with
  | some e => .error (.malformed ending.position e)
  | none =>
    let b := Builder.start.run es
    match b.opened with
    | e :: _ => .error (.malformed ending.position (.unclosedElement e.name))
    | [] => match b.root with
      | some root => .ok root
      | none => .error .missingRoot

/-- The root element of a document. -/
def parse (t : Text) : Except DocumentError Element :=
  if (Text.trim t).isEmpty then .error .empty
  else
    let (es, ending) := events t
    rootOf es ending

end PascalSurvey.Xml
