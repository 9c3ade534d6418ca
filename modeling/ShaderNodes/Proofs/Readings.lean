import Mathlib
import ShaderNodes.Load
import ShaderNodes.Proofs.Roster

/-!
# What can be read

A value is readable by a codec if some document holds it. What a record holds has been read field by
field, or stands for a missing field, whichever of the forms of a record the document has; so a
property of all readable parts is a property of all readable wholes.

* `Yields`: how a computation that may be refused ends;
* `Codec.Readable`: what a codec can read;
* `Codec.readable_list`, `Codec.readable_roster`, `Codec.readable_record`: parts of what is read.
-/

namespace ShaderNodes

open Json Json.Reading

section yields

variable {ε ε' α β : Type}

/-- The computation ends with the given value, whatever it reports. -/
def Yields (x : ExceptT ε Logged α) (a : α) : Prop := x.run.value = .ok a

theorem yields_of_toOption {x : ExceptT ε Logged α} {a : α}
    (h : x.run.value.toOption = some a) : Yields x a := by
  unfold Yields
  cases hx : x.run.value with
  | error e => simp [hx, Except.toOption] at h
  | ok b => simpa [hx, Except.toOption] using h

@[simp] theorem yields_pure {a b : α} : Yields (pure a : ExceptT ε Logged α) b ↔ a = b := by
  simp [Yields, pure, ExceptT.pure, ExceptT.mk, ExceptT.run]

@[simp] theorem not_yields_throw {e : ε} {a : α} :
    ¬ Yields (throw e : ExceptT ε Logged α) a := by
  simp [Yields, throw, throwThe, MonadExceptOf.throw, ExceptT.mk, ExceptT.run, pure]

@[simp] theorem yields_bind {x : ExceptT ε Logged α} {f : α → ExceptT ε Logged β} {b : β} :
    Yields (x >>= f) b ↔ ∃ a, Yields x a ∧ Yields (f a) b := by
  unfold Yields
  rw [ExceptT.run_bind]
  show (match x.run.value with
    | .ok a => (f a).run
    | .error e => pure (.error e) : Logged (Except ε β)).value = _ ↔ _
  cases x.run.value with
  | error e => simp [pure]
  | ok a => simp

@[simp] theorem yields_map {x : ExceptT ε Logged α} {g : α → β} {b : β} :
    Yields (g <$> x) b ↔ ∃ a, Yields x a ∧ g a = b := by
  rw [map_eq_pure_bind, yields_bind]
  simp only [yields_pure]

@[simp] theorem yields_adapt {x : ExceptT ε Logged α} {f : ε → ε'} {a : α} :
    Yields (x.adapt f) a ↔ Yields x a := by
  show x.run.value.mapError f = .ok a ↔ x.run.value = .ok a
  cases x.run.value <;> simp [Except.mapError]

@[simp] theorem yields_lift {x : Logged α} {a : α} : Yields (Reading.lift x) a ↔ x.value = a := by
  show Except.ok x.value = .ok a ↔ x.value = a
  rw [Except.ok.injEq]

@[simp] theorem not_yields_refuse {m : Mismatch} {a : α} : ¬ Yields (refuse m) a :=
  not_yields_throw

@[simp] theorem not_yields_wrongKind {j : Json} {wanted : String} {a : α} :
    ¬ Yields (wrongKind j wanted) a := by
  simp [wrongKind]

/-- What changes none of the values that come out changes nothing at all. -/
theorem bind_eq_self {x : ExceptT ε Logged α} {k : α → ExceptT ε Logged α}
    (h : ∀ a, Yields x a → k a = pure a) : x >>= k = x := by
  obtain ⟨events, value⟩ := x
  cases value with
  | error e =>
    show (⟨events ++ [], .error e⟩ : Logged (Except ε α)) = ⟨events, .error e⟩
    rw [List.append_nil]
  | ok a =>
    show (⟨events ++ (k a).run.events, (k a).run.value⟩ : Logged (Except ε α)) = ⟨events, .ok a⟩
    rw [h a rfl]
    show (⟨events ++ [], .ok a⟩ : Logged (Except ε α)) = ⟨events, .ok a⟩
    rw [List.append_nil]

end yields

/-! ## Parts of what is read -/

namespace Codec

variable {α β : Type}

/-- Some document holds the value. -/
def Readable (c : Codec α) (a : α) : Prop := ∃ j, Yields (c.read j) a

theorem readable_map {c : Codec α} {make : α → β} {parts : β → α} {b : β}
    (h : (c.map make parts).Readable b) : ∃ a, c.Readable a ∧ make a = b := by
  obtain ⟨j, hj⟩ := h
  obtain ⟨a, ha, rfl⟩ := yields_map.1 hj
  exact ⟨a, ⟨j, ha⟩, rfl⟩

theorem readable_readItems {c : Codec α} {items : Items} {as : List α}
    (h : Yields (c.readItems items) as) : ∀ a ∈ as, c.Readable a := by
  fun_induction readItems c items generalizing as with
  | case1 e =>
    simp only [yields_bind, yields_pure] at h
    obtain ⟨-, -, rfl⟩ := h
    rintro a ⟨⟩
  | case2 j tail ih =>
    simp only [yields_bind, yields_pure] at h
    obtain ⟨first, hfirst, rest, hrest, rfl⟩ := h
    exact List.forall_mem_cons.2 ⟨⟨j, hfirst⟩, ih hrest⟩

theorem readable_list {c : Codec α} {wanted : String} {as : List α}
    (h : (c.list wanted).Readable as) : ∀ a ∈ as, c.Readable a := by
  obtain ⟨j, hj⟩ := h
  cases j with
  | array items => exact readable_readItems hj
  | scalar s => exact absurd hj not_yields_wrongKind
  | object members => exact absurd hj not_yields_wrongKind

theorem readable_roster {κ : Type} [Keyed α κ] [DecidableEq κ] {c : Codec α} {r : Roster α}
    (h : c.roster.Readable r) : ∀ a ∈ r.entries, c.Readable a := by
  obtain ⟨as, has, rfl⟩ := readable_map h
  exact fun a ha => readable_list has a (Roster.mem_of_mem_ofList ha)

end Codec

namespace Fields

variable {ts : List Type}

/-- Each field has been read, or what stands for it when it is missing. -/
def Readable : {ts : List Type} → Fields ts → Row ts → Prop
  | _, nil, _ => True
  | _, cons _ codec fallback rest, (a, row) =>
    (codec.Readable a ∨ fallback = some a) ∧ rest.Readable row

/-- A field for which nothing stands has been read. -/
theorem readable_required {α : Type} {codec : Codec α} {a : α}
    (h : codec.Readable a ∨ none = some a) : codec.Readable a := h.resolve_right nofun

/-- What has been read so far has been read from documents. -/
def Supplied : {ts : List Type} → Fields ts → Draft ts → Prop
  | _, nil, _ => True
  | _, cons _ codec _ rest, (a, draft) => (∀ x ∈ a, codec.Readable x) ∧ rest.Supplied draft

theorem supplied_blank (fields : Fields ts) : fields.Supplied fields.blank := by
  induction fields with
  | nil => trivial
  | cons name codec fallback rest ih => exact ⟨by rintro x ⟨⟩, ih⟩

theorem supplied_offer {fields : Fields ts} {draft draft' : Draft ts} {name : String} {j : Json}
    {r : Reading (Draft ts)} (h : fields.Supplied draft)
    (hoffer : fields.offer draft name j = some r) (hr : Yields r draft') :
    fields.Supplied draft' := by
  induction fields with
  | nil => cases hoffer
  | cons field codec fallback rest ih =>
    obtain ⟨old, draft⟩ := draft
    unfold offer at hoffer
    split at hoffer
    case isTrue hname =>
      cases hoffer
      split at hr
      case isTrue => simp at hr
      case isFalse =>
        simp only [yields_bind, yields_pure] at hr
        obtain ⟨a, ha, rfl⟩ := hr
        exact ⟨by rintro x ⟨⟩; exact ⟨j, ha⟩, h.2⟩
    case isFalse hname =>
      obtain ⟨r', hr', rfl⟩ := Option.map_eq_some_iff.1 hoffer
      simp only [yields_bind, yields_pure] at hr
      obtain ⟨draft', hdraft', rfl⟩ := hr
      exact ⟨h.1, ih h.2 hr' hdraft'⟩

theorem supplied_readMembers {fields : Fields ts} {draft draft' : Draft ts} {members : Members}
    (h : fields.Supplied draft) (hr : Yields (fields.readMembers draft members) draft') :
    fields.Supplied draft' := by
  fun_induction readMembers fields draft members with
  | case1 draft e =>
    simp only [yields_bind, yields_pure] at hr
    obtain ⟨-, -, rfl⟩ := hr
    exact h
  | case2 draft q j tail ih ih' =>
    obtain ⟨name, -, hr⟩ := yields_bind.1 hr
    split at hr
    case h_1 r hoffer =>
      obtain ⟨next, hnext, hr⟩ := yields_bind.1 hr
      exact ih next (supplied_offer h hoffer hnext) hr
    case h_2 =>
      obtain ⟨-, -, hr⟩ := yields_bind.1 hr
      exact ih' h hr

theorem readable_complete {fields : Fields ts} {draft : Draft ts} {row : Row ts}
    (h : fields.Supplied draft) (hr : Yields (fields.complete draft) row) :
    fields.Readable row := by
  induction fields with
  | nil => trivial
  | cons name codec fallback rest ih =>
    obtain ⟨old, draft⟩ := draft
    unfold complete at hr
    split at hr
    case h_1 a ha =>
      simp only [yields_bind, yields_pure] at hr
      obtain ⟨row, hrow, rfl⟩ := hr
      refine ⟨?_, ih h.2 hrow⟩
      cases old with
      | none => exact .inr ha
      | some x =>
        cases ha
        exact .inl (h.1 _ rfl)
    case h_2 => exact absurd hr not_yields_refuse

theorem readable_readItems {fields : Fields ts} {wanted : String} {n : Nat} {items : Items}
    {row : Row ts} (hr : Yields (fields.readItems wanted n items) row) : fields.Readable row := by
  induction fields generalizing n items with
  | nil => trivial
  | cons name codec fallback rest ih =>
    cases items with
    | cons j tail =>
      unfold readItems at hr
      simp only [yields_bind, yields_pure] at hr
      obtain ⟨a, ha, row, hrow, rfl⟩ := hr
      exact ⟨.inl ⟨j, ha⟩, ih hrow⟩
    | nil e =>
      unfold readItems at hr
      obtain ⟨-, -, hr⟩ := yields_bind.1 hr
      cases fallback with
      | none => exact absurd hr not_yields_refuse
      | some a =>
        simp only [yields_bind, yields_pure] at hr
        obtain ⟨row, hrow, rfl⟩ := hr
        exact ⟨.inr rfl, ih hrow⟩

end Fields

/-- The contents of a record that is read. -/
theorem Codec.readable_record {α : Type} {ts : List Type} {name : String} {fields : Fields ts}
    {make : Row ts → α} {parts : α → Row ts} {a : α}
    (h : (record name fields make parts).Readable a) :
    ∃ row, fields.Readable row ∧ make row = a := by
  obtain ⟨j, hj⟩ := h
  cases j with
  | object members =>
    obtain ⟨draft, hdraft, hj⟩ := yields_bind.1 hj
    obtain ⟨row, hrow, ha⟩ := yields_bind.1 hj
    have hsupplied := Fields.supplied_readMembers fields.supplied_blank hdraft
    exact ⟨row, Fields.readable_complete hsupplied hrow, yields_pure.1 ha⟩
  | array items =>
    obtain ⟨row, hrow, ha⟩ := yields_bind.1 hj
    exact ⟨row, Fields.readable_readItems hrow, yields_pure.1 ha⟩
  | scalar s => exact absurd hj not_yields_wrongKind

/-- What is read from a text has been read from the document in it. -/
theorem Codec.readable_of_parse {α : Type} {c : Codec α} {text : String} {a : α}
    (h : Yields (c.parse text) a) : c.Readable a := by
  obtain ⟨a', ha', h⟩ := yields_bind.1 h
  obtain ⟨-, -, h⟩ := yields_bind.1 h
  exact ⟨_, yields_pure.1 h ▸ ha'⟩

theorem readable_of_loadText {α : Type} {kind : FileKind} {c : Codec α} {text : String} {a : α}
    (h : Yields (loadText kind c text) a) : c.Readable a :=
  Codec.readable_of_parse (yields_adapt.1 h)

end ShaderNodes
