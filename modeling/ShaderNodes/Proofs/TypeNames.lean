import Mathlib
import ShaderNodes.Proofs.Documents
import ShaderNodes.Proofs.Messages

/-!
# The text of type names

A type name is read at its first slash, and refused if there is another one behind it. So the texts
that can be read are those with one slash and something on both sides of it, and reading them takes
them apart at the only place where they could have been put together. Names that were not read from
a text come back from theirs only if they look as if they were.

Text that is no name is taken for the unknown type, whose own text can be read. Whatever has been
read once therefore stays as it is, however often it is saved and loaded, and nothing is reported
again.

* `TypeId.parse?_eq_some_iff`, `TypeId.parse?_text_eq_some_iff`: the texts that can be read, and
  the names that come back;
* `TypeId.reopened_of_wellFormed`: names that are saved and loaded repeatedly;
* `type_names_faithful`: all of this together.
-/

namespace ShaderNodes

namespace TypeId

/-- Exactly one slash, with something on both sides. -/
def OneSlash (s : String) : Prop :=
  s.toList.count '/' = 1 ∧ ∃ a b, a ≠ "" ∧ b ≠ "" ∧ s = a ++ "/" ++ b

theorem text_of_parse? {s : String} {t : TypeId} (h : parse? s = some t) : t.text = s := by
  unfold parse? at h
  dsimp only at h
  split at h
  · cases h
  · next c name hname =>
    split_ifs at h
    cases h
    obtain rfl : c = '/' := by
      have hhead := List.head?_dropWhile_not (fun c => decide (c ≠ '/')) s.toList
      rw [hname] at hhead
      simpa using hhead
    apply String.toList_injective
    rw [toList_text, String.toList_ofList, String.toList_ofList, ← hname,
      List.takeWhile_append_dropWhile]

/-- A slash in the text is the one between the two parts, or one inside of them. -/
theorem count_slash_eq_one_iff (t : TypeId) : t.text.toList.count '/' = 1 ↔
    '/' ∉ t.category.toList ∧ '/' ∉ t.name.toList := by
  rw [toList_text, List.count_append, List.count_cons_self, ← List.count_eq_zero,
    ← List.count_eq_zero]
  omega

theorem oneSlash_text_iff (t : TypeId) : OneSlash t.text ↔ t.WellFormed := by
  constructor
  · rintro ⟨hcount, a, b, ha, hb, htext⟩
    have hab : t.text = (⟨a, b⟩ : TypeId).text := htext
    obtain ⟨hcategory, hname⟩ := (count_slash_eq_one_iff t).1 hcount
    obtain ⟨ha', -⟩ := (count_slash_eq_one_iff ⟨a, b⟩).1 (hab ▸ hcount)
    have hlist := congrArg String.toList hab
    rw [toList_text, toList_text] at hlist
    -- Neither front part has a slash, so both texts are split at the same place.
    obtain ⟨hfront, hback⟩ := append_inj_of_class (fun c => decide (c ≠ '/'))
      (decide_ne_of_not_mem hcategory) (decide_ne_of_not_mem ha') (by decide) (by decide) hlist
    have hfront' : t.category = a := String.toList_injective hfront
    have hback' : t.name = b := String.toList_injective (List.cons.inj hback).2
    exact ⟨hfront' ▸ ha, hback' ▸ hb, hcategory, hname⟩
  · intro h
    exact ⟨(count_slash_eq_one_iff t).2 ⟨h.category_slash, h.name_slash⟩, t.category, t.name,
      h.category, h.name, rfl⟩

theorem parse?_eq_some_iff {s : String} {t : TypeId} :
    parse? s = some t ↔ OneSlash s ∧ t.text = s := by
  constructor
  · intro h
    obtain rfl := text_of_parse? h
    exact ⟨(oneSlash_text_iff t).2 (wellFormed_of_parse? h), rfl⟩
  · rintro ⟨h, rfl⟩
    exact parse?_text ((oneSlash_text_iff t).1 h)

theorem isSome_parse?_iff (s : String) : (parse? s).isSome ↔ OneSlash s := by
  rw [Option.isSome_iff_exists]
  constructor
  · rintro ⟨t, h⟩
    exact (parse?_eq_some_iff.1 h).1
  · intro h
    obtain ⟨a, b, -, -, hs⟩ := h.2
    exact ⟨⟨a, b⟩, parse?_eq_some_iff.2 ⟨h, hs.symm⟩⟩

theorem parse?_text_eq_some_iff (t : TypeId) : parse? t.text = some t ↔ t.WellFormed :=
  ⟨wellFormed_of_parse?, parse?_text⟩

theorem wellFormed_ofText (s : String) : (ofText s).value.WellFormed := by
  unfold ofText
  split
  · next t h => exact wellFormed_of_parse? h
  · exact wellFormed_unknown

/-- A text that is a type name is taken for that name, and nothing is reported. -/
theorem ofText_of_parse? {s : String} {t : TypeId} (h : parse? s = some t) : ofText s = pure t := by
  rw [ofText, h]

/-- Any other text is taken for the unknown type. -/
theorem value_ofText_of_not_oneSlash {s : String} (h : ¬ OneSlash s) :
    (ofText s).value = .unknown := by
  have hnone : parse? s = none := by
    rwa [← isSome_parse?_iff, Option.not_isSome_iff_eq_none] at h
  rw [ofText, hnone]
  rfl

theorem ofText_text {t : TypeId} (h : t.WellFormed) : ofText t.text = pure t :=
  ofText_of_parse? (parse?_text h)

/-- Saves and loads a name as often as wanted. -/
def reopened : Nat → TypeId → Json.Reading TypeId
  | 0, t => pure t
  | n + 1, t => codec.parse (codec.write t).compact >>= reopened n

theorem reopened_of_wellFormed (n : Nat) {t : TypeId} (h : t.WellFormed) :
    reopened n t = pure t := by
  induction n with
  | zero => rfl
  | succ n ih =>
    have hround : codec.parse (codec.write t).compact = pure t :=
      (Codec.restores_iff complete_codec t).2 (echo_codec h)
    rw [reopened, hround, pure_bind, ih]

end TypeId

/-- A text is a type name exactly if it has one slash with something on both sides, and it is then
the text of that name. A name comes back from its text exactly if it is well formed. Where a text is
taken for a type name whatever it is, it is taken for the name that it is the text of, or else for
the unknown type; and this is stable from then on. -/
theorem type_names_faithful :
    (∀ s, (TypeId.parse? s).isSome ↔ TypeId.OneSlash s) ∧
    (∀ s t, TypeId.parse? s = some t ↔ TypeId.OneSlash s ∧ t.text = s) ∧
    (∀ t : TypeId, TypeId.parse? t.text = some t ↔ t.WellFormed) ∧
    (∀ s t, TypeId.parse? s = some t → TypeId.ofText s = pure t) ∧
    (∀ s, ¬ TypeId.OneSlash s → (TypeId.ofText s).value = .unknown) ∧
    (∀ s, TypeId.ofText (TypeId.ofText s).value.text = pure (TypeId.ofText s).value) ∧
    (∀ s n, TypeId.codec.parse s >>= TypeId.reopened n = TypeId.codec.parse s) := by
  refine ⟨TypeId.isSome_parse?_iff, fun s t => TypeId.parse?_eq_some_iff,
    TypeId.parse?_text_eq_some_iff, fun s t => TypeId.ofText_of_parse?,
    fun s => TypeId.value_ofText_of_not_oneSlash, ?_, ?_⟩
  · intro s
    exact TypeId.ofText_text (TypeId.wellFormed_ofText s)
  · intro s n
    apply bind_eq_self
    intro t ht
    exact TypeId.reopened_of_wellFormed n
      (TypeId.wellFormed_of_readable (Codec.readable_of_parse ht))

end ShaderNodes
