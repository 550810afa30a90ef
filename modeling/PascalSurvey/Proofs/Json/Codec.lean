/-
PascalSurvey/Proofs/Json/Codec.lean

Readers and writers that agree.  A reader is lawful for a writer (`Lawful`) if it takes what is
written of an admissible value back to that value, and never gives a value that is not
admissible.  So it takes back all that it has ever given (`Lawful.reread`), and the admissible
values are just those that it takes back (`Lawful.reread_iff`).

The readers of texts, numbers and truth values are lawful, those of lists are lawful if the
readers of their items are, and those of enumerations if the names differ.  A record is read
field by field (`LawfulField`), and the fields of a written record are there, each once, in
whatever order they are asked for (`fields?_obj`).
-/
import Mathlib.Data.List.Forall2
import Mathlib.Data.List.Nodup
import PascalSurvey.Json.Codec

namespace PascalSurvey.Json

variable {α : Type}

/-! ### Lawful readers -/

/-- A reader agrees with a writer on the admissible values. -/
structure Lawful (read : Json → Option α) (write : α → Json) (Admits : α → Prop) : Prop where
  read_write : ∀ {a}, Admits a → read (write a) = some a
  admits : ∀ {j a}, read j = some a → Admits a
  /-- A value is never written as an optional field that is missing. -/
  write_ne_null : ∀ a, write a ≠ .null

variable {read : Json → Option α} {write : α → Json} {Admits : α → Prop}

/-- What was read once is read again from what is written of it. -/
theorem Lawful.reread (h : Lawful read write Admits) {j : Json} {a : α} (hread : read j = some a) :
    read (write a) = some a :=
  h.read_write (h.admits hread)

/-- The admissible values are those that come back. -/
theorem Lawful.reread_iff (h : Lawful read write Admits) {a : α} :
    read (write a) = some a ↔ Admits a :=
  ⟨h.admits, h.read_write⟩

theorem lawful_text : Lawful text? .str (Utf8.isValid · = true) where
  read_write h := if_pos h
  admits {j a} h := by
    cases j with
    | str t =>
      obtain ⟨hvalid, ha⟩ := Option.ite_none_right_eq_some.mp h
      exact Option.some.inj ha ▸ hvalid
    | _ => cases h
  write_ne_null _ := nofun

theorem lawful_nat (bound : Nat) : Lawful (nat? bound) .nat (· < bound) where
  read_write h := if_pos h
  admits {j a} h := by
    cases j with
    | nat n =>
      obtain ⟨hlt, ha⟩ := Option.ite_none_right_eq_some.mp h
      exact Option.some.inj ha ▸ hlt
    | _ => cases h
  write_ne_null _ := nofun

theorem lawful_bool : Lawful bool? .bool fun _ => True where
  read_write _ := rfl
  admits _ := trivial
  write_ne_null _ := nofun

/-- The reader of an enumeration is lawful if every value has a name of its own. -/
theorem lawful_enumeration (values : List α) (name : α → Text) (hall : ∀ a, a ∈ values)
    (hnames : (values.map name).Nodup) :
    Lawful (fun j => (name? j).bind fun n => values.find? fun a => name a == n)
      (fun a => .str (name a)) fun _ => True where
  read_write {a} _ := by
    have hfound : (values.find? fun b => name b == name a).isSome :=
      List.find?_isSome.mpr ⟨a, hall a, beq_self_eq_true _⟩
    obtain ⟨b, hb⟩ := Option.isSome_iff_exists.mp hfound
    have hname : name b = name a := by
      have := List.find?_some hb
      exact eq_of_beq this
    rw [List.inj_on_of_nodup_map hnames (hall b) (hall a) hname] at hb
    exact hb
  admits _ := trivial
  write_ne_null _ := nofun

/-! ### Lists -/

theorem mapM_eq_some_iff {β : Type} {f : β → Option α} {xs : List β} {ys : List α} :
    xs.mapM f = some ys ↔ List.Forall₂ (fun x y => f x = some y) xs ys := by
  induction xs generalizing ys with
  | nil => simp [eq_comm]
  | cons x xs ih =>
    simp only [List.mapM_cons, Option.bind_eq_bind, Option.bind_eq_some_iff, Option.pure_def,
      Option.some.injEq, List.forall₂_cons_left_iff, ih]
    constructor
    · rintro ⟨y, hy, ys, hys, rfl⟩
      exact ⟨y, ys, hy, hys, rfl⟩
    · rintro ⟨y, ys, hy, hys, rfl⟩
      exact ⟨y, hy, ys, hys, rfl⟩

theorem Lawful.list (h : Lawful read write Admits) :
    Lawful (list? read) (ofList write) fun as => ∀ a ∈ as, Admits a where
  read_write {as} has := by
    refine mapM_eq_some_iff.mpr (List.forall₂_map_left_iff.mpr (List.forall₂_same.mpr ?_))
    exact fun a ha => h.read_write (has a ha)
  admits {j as} hread := by
    cases j with
    | arr items =>
      have hitems : List.Forall₂ (fun item a => read item = some a) items as :=
        mapM_eq_some_iff.mp hread
      -- on the items and what was read of them, side by side
      clear hread
      induction hitems with
      | nil => nofun
      | cons ha _ ih => exact List.forall_mem_cons.mpr ⟨h.admits ha, ih⟩
    | _ => cases hread
  write_ne_null _ := nofun

/-! ### Fields -/

/-- A reader of the field of a record agrees with a writer on the admissible values. -/
structure LawfulField (read : Option Json → Option α) (write : α → Json) (Admits : α → Prop) :
    Prop where
  read_write : ∀ {a}, Admits a → read (some (write a)) = some a
  admits : ∀ {f a}, read f = some a → Admits a

/-- A record of which a field was read first has an admissible value there. -/
theorem LawfulField.of_bind {β : Type} {readField : Option Json → Option α}
    (h : LawfulField readField write Admits) {f : Option Json} {rest : α → Option β} {b : β}
    (hread : (readField f >>= rest) = some b) : ∃ a, Admits a ∧ rest a = some b := by
  obtain ⟨a, ha, hrest⟩ := Option.bind_eq_some_iff.mp hread
  exact ⟨a, h.admits ha, hrest⟩

theorem Lawful.required (h : Lawful read write Admits) :
    LawfulField (required read) write Admits where
  read_write := h.read_write
  admits {f a} hread := by
    cases f with
    | none => cases hread
    | some j => exact h.admits hread

theorem optional_of_ne_null {v : Json} (hv : v ≠ .null) :
    optional read (some v) = (read v).map some := by
  cases v with
  | null => exact absurd rfl hv
  | _ => rfl

theorem Lawful.optional (h : Lawful read write Admits) :
    LawfulField (optional read) (ofOption write) fun o => ∀ a ∈ o, Admits a where
  read_write {o} ho := by
    cases o with
    | none => rfl
    | some a => rw [ofOption, optional_of_ne_null (h.write_ne_null a), h.read_write (ho a rfl),
        Option.map_some]
  admits {f o} hread := by
    have hnone : ∀ a ∈ (none : Option α), Admits a := fun a ha => absurd ha (Option.not_mem_none a)
    unfold Json.optional at hread
    split at hread
    · exact Option.some.inj hread ▸ hnone
    · obtain ⟨a, ha, rfl⟩ := Option.map_eq_some_iff.mp hread
      intro b hb
      exact Option.some.inj hb ▸ h.admits ha
    · exact Option.some.inj hread ▸ hnone

theorem field_text : LawfulField (required text?) .str (Utf8.isValid · = true) :=
  lawful_text.required

theorem field_text? : LawfulField (optional text?) (ofOption .str) fun o =>
    ∀ t ∈ o, Utf8.isValid t = true :=
  lawful_text.optional

theorem field_texts : LawfulField (required (list? text?)) (ofList .str) fun ts =>
    ∀ t ∈ ts, Utf8.isValid t = true :=
  lawful_text.list.required

theorem field_nat {bound : Nat} : LawfulField (required (nat? bound)) .nat (· < bound) :=
  (lawful_nat bound).required

theorem field_bool : LawfulField (required bool?) .bool fun _ => True :=
  lawful_bool.required

theorem field_bool? : LawfulField (optional bool?) (ofOption .bool) fun o => ∀ b ∈ o, True :=
  lawful_bool.optional

/-! ### Records -/

theorem filter_key_eq {members : List (Text × Json)} (hkeys : (members.map (·.1)).Nodup)
    {m : Text × Json} (hm : m ∈ members) : members.filter (fun (k, _) => k == m.1) = [m] := by
  induction members with
  | nil => cases hm
  | cons a rest ih =>
    rw [List.map_cons, List.nodup_cons] at hkeys
    rcases List.mem_cons.mp hm with rfl | hm
    · -- no later member has the key of the first one
      have hrest : rest.filter (fun (k, _) => k == m.1) = [] :=
        List.filter_eq_nil_iff.mpr fun n hn hkey =>
          hkeys.1 (eq_of_beq hkey ▸ List.mem_map_of_mem hn)
      rw [List.filter_cons_of_pos (by simp), hrest]
    · have hkey : ¬ (a.1 == m.1) = true := fun hkey =>
        hkeys.1 (eq_of_beq hkey ▸ List.mem_map_of_mem hm)
      rw [List.filter_cons_of_neg (by exact hkey), ih hkeys.2 hm]

/-- The fields of a written record are read in the order of their names. -/
theorem fields?_obj {names : List Text} {members : List (Text × Json)}
    (hnames : members.map (·.1) = names)
    (hkeys : names.Nodup ∧ ∀ k ∈ names, Utf8.isValid k = true) :
    fields? names (.obj members) = some (members.map fun m => some m.2) := by
  subst hnames
  have hvalid : members.all (fun (k, _) => Utf8.isValid k) = true :=
    List.all_eq_true.mpr fun m hm => hkeys.2 m.1 (List.mem_map_of_mem hm)
  rw [fields?, if_pos hvalid, mapM_eq_some_iff, List.forall₂_map_left_iff,
    List.forall₂_map_right_iff, List.forall₂_same]
  intro m hm
  rw [member?, filter_key_eq hkeys.1 hm]

end PascalSurvey.Json
