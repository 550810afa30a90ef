/-
PascalSurvey/Proofs/Routine/Append.lean

Extraction goes part by part.  A text that ends with a semicolon of code and a line break, with
all its parentheses closed, and a text that begins with a method of a class make a `Seam`, so
the rounds of an extraction in the one are followed by the rounds in the other
(`Yields.append`).  However damaged the first text is, the methods of the second are not
affected.
-/
import PascalSurvey.Proofs.Routine.Opening

namespace PascalSurvey.Routine

open Ascii Source

/-! ### The overlay of two texts -/

variable {t u : Text}

/-- The overlay of a text up to its last semicolon. -/
def front (t : Text) : Text := (overlay (joined t [])).take t.length

@[simp] theorem length_front (t : Text) : (front t).length = t.length := by
  rw [front, List.length_take, length_mask, length_joined]
  omega

/-- The overlay of two texts is made of theirs, if the semicolon between them is code. -/
theorem overlay_joined (h : Outside (joined t []) t.length) (u : Text) :
    overlay (joined t u) = joined (front t) (overlay u) := by
  have hcode (c : UInt8) (hc : c = semicolon ∨ c = newline) (r : Text) :
      regionAt? (c :: r) = none := by
    rcases hc with rfl | rfl <;>
      exact regionAt?_eq_none r (by decide) (by decide) (by decide) (by decide)
  have hdrop : (overlay (joined t [])).drop t.length = [semicolon, newline] := by
    rw [h.overlay_drop, joined, List.drop_left, overlay_code (hcode _ (.inl rfl) _),
      overlay_code (hcode _ (.inr rfl) _), overlay_nil]
  have hfront : overlay (joined t []) = front t ++ [semicolon, newline] := by
    rw [front, ← hdrop, List.take_append_drop]
  have happend : overlay (joined t [] ++ u) = overlay (joined t []) ++ overlay u := by
    show ((pieces (t ++ [semicolon, newline] ++ u)).flatMap _) = _
    rw [pieces_append u h, List.flatMap_append]
    rfl
  rw [joined_eq_append, happend]
  rw [hfront, joined, List.append_assoc]
  rfl

theorem overlay_front (h : Outside (joined t []) t.length) :
    overlay (joined t []) = joined (front t) [] := by
  rw [overlay_joined h, overlay_nil]

/-! ### Spans of two texts -/

/-- The same span `k` bytes further on. -/
def Span.shift (k : Nat) (s : Span) : Span :=
  { s with header := s.header.shift k, stop := k + s.stop }

/-- The rounds depend on where the search starts only in what it finds. -/
theorem Yields.of_find? {p p' : Nat} {spans : List Span}
    (hfind : Header.find? (overlay t) p = Header.find? (overlay t) p') (h : Yields t p' spans) :
    Yields t p spans := by
  cases h with
  | done hh => exact .done (hfind.trans hh)
  | declaration hh hdecl hrest => exact .declaration (hfind.trans hh) hdecl hrest
  | bodiless hh hdecl hstart hrest => exact .bodiless (hfind.trans hh) hdecl hstart hrest
  | method hh hdecl hstart hrest => exact .method (hfind.trans hh) hdecl hstart hrest

section

variable (hout : Outside (joined t []) t.length)

include hout

/-- The rounds in the second text are those behind the first. -/
theorem Yields.behind (hu : Fresh (overlay u)) {p : Nat} {spans : List Span} (h : Yields u p spans) :
    Yields (joined t u) (t.length + 2 + p) (spans.map (Span.shift (t.length + 2))) := by
  have hov : overlay (joined t u) = joined (front t) (overlay u) :=
    overlay_joined hout u
  have hfind (p : Nat) : Header.find? (overlay (joined t u)) (t.length + 2 + p) =
      (Header.find? (overlay u) p).map (Header.shift (t.length + 2)) := by
    rw [hov, ← length_front t]
    exact Header.find?_joined (front t) hu p
  have hbody {p : Nat} {h : Header} (hh : Header.find? (overlay u) p = some h) :
      bodyOf (joined t u) (h.shift (t.length + 2)) = (bodyOf u h).shift (t.length + 2) := by
    have hloc := (Header.find?_located hh).2
    have hhere := (Body.walks_scan hloc.outside_stop).behind (front t) hu
    rw [← hov, length_front] at hhere
    have hfound := hfind p
    rw [hh] at hfound
    exact (Body.walks_scan (Header.find?_located hfound).2.outside_stop).unique hhere
  induction h with
  | done hnone => exact .done (by rw [hfind, hnone]; rfl)
  | @declaration p h spans hh hdecl _ ih =>
    rw [← Nat.add_max_add_left] at ih
    exact .declaration (h := h.shift (t.length + 2)) (by rw [hfind, hh]; rfl) hdecl ih
  | @bodiless p h spans hh hdecl hstart _ ih =>
    exact .bodiless (h := h.shift (t.length + 2)) (by rw [hfind, hh]; rfl) hdecl
      (by rw [hbody hh]; exact hstart) ih
  | @method p h spans hh hdecl hstart _ ih =>
    rw [← Nat.add_max_add_left] at ih
    have := Yields.method (h := h.shift (t.length + 2)) (by rw [hfind, hh]; rfl) hdecl
      (by rw [hbody hh]; exact hstart) (by rw [hbody hh]; exact ih)
    rw [hbody hh] at this
    rw [List.map_cons, Span.shift, ← Nat.add_max_add_left]
    exact this

/-- The body of a header in the first text is the same with the second one behind. -/
theorem bodyOf_joined (hseam : Seam (front t) (overlay u)) {h : Header}
    (hh : h.Located (overlay (joined t []))) (hh' : h.Located (overlay (joined t u))) :
    bodyOf (joined t u) h = bodyOf (joined t []) h := by
  have hhere := Body.walks_scan hh.outside_stop
  have hstop := Nat.le_trans hh.stop_le hh.end_le
  rw [overlay_front hout] at hhere
  rw [overlay_front hout, length_joined, List.length_nil] at hstop
  have hlong := hseam.walks hhere hstop (.inl rfl)
  rw [← overlay_joined hout, ← overlay_front hout] at hlong
  exact (Body.walks_scan hh'.outside_stop).unique hlong

/-- **The rounds in the first text are followed by those in the second.** -/
theorem Yields.append (hseam : Seam (front t) (overlay u)) {p : Nat} {spans spans' : List Span}
    (h : Yields (joined t []) p spans) (hp : p ≤ t.length + 2) (h' : Yields u 0 spans') :
    Yields (joined t u) p (spans ++ spans'.map (Span.shift (t.length + 2))) := by
  have hfind {p : Nat} (hp : p ≤ t.length + 2) :
      Header.find? (overlay (joined t u)) p =
        (Header.find? (overlay (joined t [])) p <|>
          Header.find? (overlay (joined t u)) (t.length + 2)) := by
    rw [overlay_joined hout, overlay_front hout, ← length_front t]
    exact hseam.find? (by rw [length_front]; exact hp)
  -- a header that is found in the first text is found with the second one behind
  have hfound {p : Nat} {h : Header} (hp : p ≤ t.length + 2)
      (hh : Header.find? (overlay (joined t [])) p = some h) :
      Header.find? (overlay (joined t u)) p = some h ∧
        bodyOf (joined t u) h = bodyOf (joined t []) h := by
    have hlong : Header.find? (overlay (joined t u)) p = some h := by
      rw [hfind hp, hh]
      rfl
    exact ⟨hlong, bodyOf_joined hout hseam (Header.find?_located hh).2
      (Header.find?_located hlong).2⟩
  have hends {p : Nat} {h : Header} (hh : Header.find? (overlay (joined t [])) p = some h) :
      h.stop ≤ h.directivesEnd ∧ h.directivesEnd ≤ t.length + 2 := by
    have := (lt_stop_of_find? hh).2
    rw [length_joined] at this
    exact this
  induction h with
  | @done p hnone =>
    -- the search goes on in the second text
    refine .of_find? ?_ (Yields.behind hout hseam.fresh h')
    rw [hfind hp, hnone]
    rfl
  | @declaration p h spans hh hdecl _ ih =>
    have := hends hh
    exact .declaration (hfound hp hh).1 hdecl (ih (by omega))
  | @bodiless p h spans hh hdecl hstart _ ih =>
    have := hends hh
    obtain ⟨hlong, hbody⟩ := hfound hp hh
    exact .bodiless hlong hdecl (hbody ▸ hstart) (ih (by omega))
  | @method p h spans hh hdecl hstart _ ih =>
    have := hends hh
    obtain ⟨hlong, hbody⟩ := hfound hp hh
    have hstop : (bodyOf (joined t []) h).stop ≤ t.length + 2 :=
      Nat.le_trans (Body.scan_stop_le (Header.find?_located hh).2.outside_stop)
        (Nat.le_of_eq (length_joined t []))
    rw [← hbody] at hstart hstop ih ⊢
    exact .method hlong hdecl hstart (ih (by omega))

/-! ### Methods of two texts -/

/-- A method of the first text is the same with the second one behind. -/
theorem Span.Fits.method_joined {p : Nat} {s : Span} (h : s.Fits (joined t []) p) (u : Text) (n : Nat) :
    s.method (joined t u) n = s.method (joined t []) n := by
  obtain ⟨q, hfind⟩ := h.found
  have hloc := (Header.find?_located hfind).2
  have hsource : Text.slice (joined t u) s.header.start s.stop =
      Text.slice (joined t []) s.header.start s.stop := by
    rw [joined_eq_append t u, Text.slice_append_of_le h.stop_le]
  have hline : (joined t u).take s.header.start = (joined t []).take s.header.start := by
    have hstart := Nat.le_trans (Nat.le_of_lt h.start_lt) h.stop_le
    rw [joined_eq_append t u, List.take_append_of_le_length hstart]
  have hparams {i e : Nat} (hp : s.header.params = some (i, e)) :
      Text.slice (overlay (joined t u)) i e = Text.slice (overlay (joined t [])) i e := by
    obtain ⟨-, -, he, -⟩ := hloc.params_at hp
    have hend := Nat.le_trans hloc.stop_le hloc.end_le
    rw [overlay_joined hout, overlay_front hout, joined_eq_append (front t) (overlay u)]
    rw [overlay_front hout] at hend
    exact Text.slice_append_of_le (by omega) i
  simp only [Span.method, Method.ofHeader, hsource, hline]
  rcases hp : s.header.params with - | ⟨i, e⟩
  · rfl
  · simp only [hparams hp]

/-- A method of the second text stands as many lines further down as the first one has. -/
theorem Span.method_shift (u : Text) (n : Nat) (s : Span) :
    (s.shift (t.length + 2)).method (joined t u) n =
      s.method u (n + Text.breaks (joined t [])) := by
  have hline : Text.breaks ((joined t u).take (t.length + 2 + s.header.start)) =
      Text.breaks (joined t []) + Text.breaks (u.take s.header.start) := by
    rw [take_joined]
    simp only [Text.breaks, joined, List.count_append, List.count_cons, List.count_nil]
    omega
  simp only [Span.method, Method.ofHeader, Span.shift, Header.shift, slice_joined, hline, ← Nat.add_assoc]
  rcases hp : s.header.params with - | ⟨i, e⟩
  · rfl
  · simp only [Option.map_some]
    rw [overlay_joined hout, ← length_front t, slice_joined]

theorem extract_joined (hseam : Seam (front t) (overlay u)) (n : Nat) :
    Method.extract (joined t u) n =
      Method.extract (joined t []) n ++ Method.extract u (n + Text.breaks (joined t [])) := by
  obtain ⟨spans, hspans⟩ := exists_yields (joined t []) 0
  obtain ⟨spans', hspans'⟩ := exists_yields u 0
  have hboth := Yields.append hout hseam hspans (Nat.zero_le _) hspans'
  rw [hboth.extract, hspans.extract, hspans'.extract, List.map_append, List.map_map]
  congr 1
  · exact List.map_congr_left fun s hs => (hspans.fits s hs).method_joined hout u n
  · exact List.map_congr_left fun s _ => s.method_shift hout u n

end

/-! ### Extraction from two texts -/

/-- Every parenthesis of code that opens is closed in the text by one of code. -/
def ParensClosed (t : Text) : Prop :=
  ∀ i, isCode t i = true → t[i]? = some lparen → (closing? 0 (t.drop i)).isSome

instance (t : Text) : Decidable (ParensClosed t) :=
  decidable_of_iff (∀ i < t.length, isCode t i = true → t[i]? = some lparen →
      (closing? 0 (t.drop i)).isSome)
    ⟨fun h i hcode hat => h i (Text.lt_length_of_getElem? hat) hcode hat, fun h i _ => h i⟩

theorem ParensClosed.front (hout : Outside (joined t []) t.length) (h : ParensClosed (joined t [])) :
    ∀ i, (front t)[i]? = some lparen → (closing? 0 ((joined (front t) []).drop i)).isSome := by
  intro i hi
  have hlt := Text.lt_length_of_getElem? hi
  have hat : (overlay (joined t []))[i]? = some lparen := by
    rw [overlay_front hout, joined, List.getElem?_append_left hlt]
    exact hi
  have hcode := isCode_of_not_filler hat (by decide)
  have hclosed := h i hcode (getElem?_of_overlay hat (by decide))
  rw [← closing?_overlay, ← (outside_of_isCode hcode).1.overlay_drop, overlay_front hout] at hclosed
  exact hclosed

/-- **Main.**  A text that ends with a semicolon of code and a line break, and in which every
parenthesis is closed, keeps its damage to itself: if a text that begins with a method of a
class is put behind it, the methods of both are those of the one and then those of the other,
with the lines counted on. -/
theorem extract_append (t u : Text) (n : Nat) (hend : [semicolon, newline] <:+ t)
    (hcode : isCode t (t.length - 2) = true) (hparens : ParensClosed t)
    (hu : BeginsMethod (overlay u)) :
    Method.extract (t ++ u) n =
      Method.extract t n ++ Method.extract u (n + Text.breaks t) := by
  obtain ⟨t, rfl⟩ := hend
  have hlen : (t ++ [semicolon, newline]).length - 2 = t.length := by simp
  rw [hlen] at hcode
  have hout : Outside (joined t []) t.length := (outside_of_isCode hcode).1
  have hseam : Seam (front t) (overlay u) :=
    { closed := ParensClosed.front hout hparens
      fresh := hu.fresh
      noDirective := hu.noDirective
      cut := hu.cut }
  rw [List.append_assoc]
  exact extract_joined hout hseam n

/-- A method whose blocks are never closed, with an `end` in a comment. -/
def openMethod : Text :=
  "procedure T.A(x: U);\nbegin case x of \x7b end; \x7d s := '('; class;\n"

/-- A method of a class behind `class`. -/
def classMethod : Text := "Class\nfunction T.B: U;\nbegin end;\n"

theorem extract_openMethod :
    [semicolon, newline] <:+ openMethod ∧ isCode openMethod (openMethod.length - 2) = true ∧
      ParensClosed openMethod ∧ BeginsMethod (overlay classMethod) ∧
      (Method.extract openMethod 1).length = 1 ∧
      Method.extract (openMethod ++ classMethod) 1 =
        Method.extract openMethod 1 ++ Method.extract classMethod (1 + Text.breaks openMethod) := by
  have hend : [semicolon, newline] <:+ openMethod := by decide +kernel
  have hcode : isCode openMethod (openMethod.length - 2) = true := by decide +kernel
  have hparens : ParensClosed openMethod := by decide +kernel
  have hbegins : BeginsMethod (overlay classMethod) := by
    have hparse : (Header.parseAt? (overlay classMethod) 6).any Header.isQualified = true := by
      decide +kernel
    obtain ⟨h, hh, hq⟩ := (Option.any_eq_true _ _).mp hparse
    have hlead : IsClassLead "Class\n" :=
      ⟨"Class", "\n", by decide +kernel, by decide +kernel, by decide +kernel, by decide +kernel⟩
    exact ⟨"Class\n", h, by decide +kernel, .inr hlead, hh, hq⟩
  exact ⟨hend, hcode, hparens, hbegins, by decide +kernel,
    extract_append openMethod classMethod 1 hend hcode hparens hbegins⟩

end PascalSurvey.Routine
