import Mathlib
import ShaderNodes.Json.Codec
import ShaderNodes.Proofs.Roster
import ShaderNodes.Proofs.Scanning

/-!
# What comes back of a written value

The *echo* of a value is the result of writing it and reading the document again. The echo of a list
or a record is made of the echoes of its parts, one after the other, so it is enough to know the
echoes of the parts that need not come back as they were.

* `Codec.Complete`, `Codec.parse_chars`: the text of a value is read as its echo, in every layout;
* `Codec.echo_list`, `Codec.echo_roster`, `Codec.echo_namedRoster`: lists and rosters;
* `Fields.echo`, `Codec.echo_record`: records, whose fields are found by name.
-/

namespace ShaderNodes

open Json Json.Reading

namespace Codec

variable {α β : Type}

/-- Writes a value and reads the document again. -/
def echo (c : Codec α) (a : α) : Reading α := c.read (c.write a)

/-- The codec writes documents that can be found again in their text. -/
def Complete (c : Codec α) : Prop := ∀ a, (c.write a).Complete

/-- A complete document is read from its text. -/
theorem parse_document (c : Codec α) {j : Json} (hj : j.Complete) (l : Layout) :
    c.parse (String.ofList (j.chars l)) = c.read j := by
  unfold parse
  rw [scan_ofList_chars l hj]
  exact bind_pure (c.read j)

theorem parse_chars {c : Codec α} (hc : c.Complete) (l : Layout) (a : α) :
    c.parse (String.ofList ((c.write a).chars l)) = c.echo a :=
  c.parse_document (hc a) l

/-! ## Scalars -/

theorem complete_text : text.Complete := fun s => ⟨s, rfl⟩

theorem echo_text (s : String) : text.echo s = pure s := rfl

theorem complete_bool : bool.Complete := fun _ => trivial

theorem echo_bool (b : Bool) : bool.echo b = pure b := rfl

theorem echo_map (c : Codec α) (make : α → β) (parts : β → α) (b : β) :
    (c.map make parts).echo b = make <$> c.echo (parts b) := rfl

theorem Complete.map {c : Codec α} (hc : c.Complete) (make : α → β) (parts : β → α) :
    (c.map make parts).Complete := fun b => hc (parts b)

theorem complete_choice (choices : List (String × α)) (name : α → String) :
    (choice choices name).Complete := fun a => ⟨name a, rfl⟩

theorem echo_choice {choices : List (String × α)} {name : α → String} {a : α}
    (h : choices.lookup (name a) = some a) : (choice choices name).echo a = pure a := by
  show chosen choices (name a) = pure a
  unfold chosen
  rw [h]

/-! ## Lists and rosters -/

theorem readItems_ofList (c : Codec α) (js : List Json) :
    c.readItems (.ofList js) = js.mapM c.read := by
  induction js with
  | nil => rfl
  | cons j js ih => rw [List.mapM_cons, ← ih]; rfl

theorem echo_list (c : Codec α) (wanted : String) (as : List α) :
    (c.list wanted).echo as = as.mapM c.echo := by
  show c.readItems (.ofList (as.map c.write)) = _
  rw [readItems_ofList, List.mapM_map]
  rfl

theorem Complete.list {c : Codec α} (hc : c.Complete) (wanted : String) :
    (c.list wanted).Complete := by
  refine fun as => complete_array.2 fun j hj => ?_
  obtain ⟨a, -, rfl⟩ := List.mem_map.1 hj
  exact hc a

/-- If all echoes are true, so is that of the list. -/
theorem mapM_eq_pure {f : α → Reading α} {as : List α} (h : ∀ a ∈ as, f a = pure a) :
    as.mapM f = pure as := by
  induction as with
  | nil => rfl
  | cons a as ih =>
    rw [List.mapM_cons, h a List.mem_cons_self, pure_bind,
      ih fun b hb => h b (List.mem_cons_of_mem _ hb), pure_bind]

theorem echo_sequence_of {c : Codec α} {as : List α} (h : ∀ a ∈ as, c.echo a = pure a) :
    c.sequence.echo as = pure as := by
  rw [sequence, echo_list, mapM_eq_pure h]

section roster

variable {κ : Type} [Keyed α κ] [DecidableEq κ]

theorem echo_roster (c : Codec α) (r : Roster α) :
    c.roster.echo r = Roster.ofList <$> r.entries.mapM c.echo :=
  congrArg (Roster.ofList <$> ·) (echo_list c _ r.entries)

theorem echo_roster_of {c : Codec α} {r : Roster α} (h : ∀ a ∈ r.entries, c.echo a = pure a) :
    c.roster.echo r = pure r := by
  rw [echo_roster, mapM_eq_pure h, map_pure, Roster.ofList_entries]

theorem Complete.roster {c : Codec α} (hc : c.Complete) : c.roster.Complete := (hc.list _).map _ _

end roster

section set

variable [Keyed α α] [DecidableEq α]

theorem echo_set_of {c : Codec α} {r : Roster α} (h : ∀ a ∈ r.entries, c.echo a = pure a) :
    c.set.echo r = pure r := echo_roster_of h

theorem Complete.set {c : Codec α} (hc : c.Complete) : c.set.Complete := (hc.list _).map _ _

end set

section namedRoster

variable {κ : Type} [Keyed β κ] [DecidableEq κ]

theorem readMembers_ofList (c : Codec α) (make : String → α → β) (ms : List (String × Json)) :
    c.readMembers make (.ofList ms) = ms.mapM fun m => make m.1 <$> c.read m.2 := by
  induction ms with
  | nil => rfl
  | cons m ms ih =>
    rw [List.mapM_cons, ← ih, map_eq_pure_bind, bind_assoc]
    rfl

theorem echo_namedRoster (c : Codec α) (make : String → α → β) (name : β → String)
    (content : β → α) (r : Roster β) :
    (c.namedRoster make name content).echo r =
      Roster.ofList <$> r.entries.mapM fun b => make (name b) <$> c.echo (content b) := by
  show (do
    let bs ← c.readMembers make (.ofList (r.entries.map fun b => (name b, c.write (content b))))
    pure (Roster.ofList bs)) = _
  rw [readMembers_ofList, List.mapM_map, map_eq_pure_bind]
  rfl

theorem Complete.namedRoster {c : Codec α} (hc : c.Complete) (make : String → α → β)
    (name : β → String) (content : β → α) : (c.namedRoster make name content).Complete := by
  refine fun r => complete_object.2 fun m hm => ?_
  obtain ⟨b, -, rfl⟩ := List.mem_map.1 hm
  exact hc (content b)

end namedRoster

end Codec

/-! ## Records -/

namespace Fields

/-- The names of the fields. -/
def names : {ts : List Type} → Fields ts → List String
  | _, nil => []
  | _, cons name _ _ rest => name :: rest.names

/-- All fields are written in a form that can be found again. -/
def Complete : {ts : List Type} → Fields ts → Prop
  | _, nil => True
  | _, cons _ codec _ rest => codec.Complete ∧ rest.Complete

/-- Writes the contents of the fields one after the other and reads them again. -/
def echo : {ts : List Type} → Fields ts → Row ts → Reading (Row ts)
  | _, nil, _ => pure ()
  | _, cons _ codec _ rest, (a, row) => do
    let a ← codec.echo a
    let row ← rest.echo row
    pure (a, row)

/-- All fields read. -/
def filled : {ts : List Type} → Fields ts → Row ts → Draft ts
  | _, nil, _ => ()
  | _, cons _ _ _ rest, (a, row) => (some a, rest.filled row)

theorem complete_filled {ts : List Type} (fields : Fields ts) (row : Row ts) :
    fields.complete (fields.filled row) = pure row := by
  induction fields with
  | nil => rfl
  | cons name codec fallback rest ih =>
    obtain ⟨a, row⟩ := row
    show (do let row ← rest.complete (rest.filled row); pure (a, row)) = _
    rw [ih, pure_bind]

theorem names_write {ts : List Type} (fields : Fields ts) (row : Row ts) :
    (fields.write row).map Prod.fst = fields.names := by
  induction fields with
  | nil => rfl
  | cons name codec fallback rest ih => exact congrArg (name :: ·) (ih row.2)

theorem complete_write {ts : List Type} {fields : Fields ts} (h : fields.Complete) (row : Row ts) :
    ∀ m ∈ fields.write row, m.2.Complete := by
  induction fields with
  | nil => rintro m ⟨⟩
  | cons name codec fallback rest ih =>
    intro m hm
    rcases List.mem_cons.1 hm with rfl | hm
    · exact h.1 row.1
    · exact ih h.2 row.2 m hm

theorem readMembers_ofList_cons {ts : List Type} (fields : Fields ts) (draft : Draft ts)
    (name : String) (j : Json) (ms : List (String × Json)) :
    fields.readMembers draft (.ofList ((name, j) :: ms)) =
      (match fields.offer draft name j with
      | some r => do
        let draft ← r
        fields.readMembers draft (.ofList ms)
      | none => do
        verdict j.pass
        fields.readMembers draft (.ofList ms)) := rfl

/-- A field is not touched by members with other names. -/
theorem readMembers_cons {α : Type} {ts : List Type} {name : String} (codec : Codec α)
    (fallback : Option α) (rest : Fields ts) (a : Option α) (draft : Draft ts)
    {ms : List (String × Json)} (h : name ∉ ms.map Prod.fst) :
    (cons name codec fallback rest).readMembers (a, draft) (.ofList ms) =
      (fun draft => (a, draft)) <$> rest.readMembers draft (.ofList ms) := by
  induction ms generalizing draft with
  | nil => rfl
  | cons m ms ih =>
    obtain ⟨other, j⟩ := m
    simp only [List.map_cons, List.mem_cons, not_or] at h
    have ih := fun draft => ih draft h.2
    rw [readMembers_ofList_cons, readMembers_ofList_cons, offer, if_neg h.1]
    cases rest.offer draft other j with
    | none => simp only [Option.map_none, ih, map_bind]
    | some r => simp only [Option.map_some, ih, map_bind, bind_assoc, pure_bind]

theorem readMembers_write {ts : List Type} {fields : Fields ts} (h : fields.names.Nodup)
    (row : Row ts) :
    fields.readMembers fields.blank (.ofList (fields.write row)) =
      fields.filled <$> fields.echo row := by
  induction fields with
  | nil => rfl
  | cons name codec fallback rest ih =>
    obtain ⟨a, row⟩ := row
    obtain ⟨hname, hrest⟩ := List.nodup_cons.1 h
    rw [← names_write rest row] at hname
    show (cons name codec fallback rest).readMembers (none, rest.blank)
      (.ofList ((name, codec.write a) :: rest.write row)) = _
    -- The first member fills the first field, and the others have other names.
    rw [readMembers_ofList_cons, offer, if_pos rfl]
    simp only [Option.isSome_none, Bool.false_eq_true, if_false, pure_bind, bind_assoc,
      readMembers_cons codec fallback rest _ _ hname, ih hrest, Functor.map_map]
    simp only [echo, filled, map_eq_pure_bind, bind_assoc, pure_bind]
    rfl

end Fields

namespace Codec

variable {α : Type} {ts : List Type} {fields : Fields ts}

/-- The fields of a written record are found by name, so the echo of a record is made of the echoes
of its fields. -/
theorem echo_record (h : fields.names.Nodup) (name : String) (make : Row ts → α)
    (parts : α → Row ts) (a : α) :
    (record name fields make parts).echo a = make <$> fields.echo (parts a) := by
  show (do
    let draft ← fields.readMembers fields.blank (.ofList (fields.write (parts a)))
    let row ← fields.complete draft
    pure (make row)) = _
  simp only [Fields.readMembers_write h, map_eq_pure_bind, bind_assoc, pure_bind,
    Fields.complete_filled]

theorem complete_record (h : fields.Complete) (name : String) (make : Row ts → α)
    (parts : α → Row ts) : (record name fields make parts).Complete := fun a =>
  complete_object.2 (Fields.complete_write h (parts a))

end Codec

end ShaderNodes
