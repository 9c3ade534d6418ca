import Mathlib
import ShaderNodes.Proofs.Catalogues

/-!
# Laying catalogues over each other

A catalogue that is laid over another one decides what is found under its names, while names that
both have stay where the lower one lists them. So values come from above and places from below.
Both can be read off a roster by its lookups and its keys, and the laws of laying several catalogues
over each other follow from what happens to these two.

* `Roster.keys_putAll_entries`, `Roster.get?_putAll_entries`: keys and lookups of an overlay;
* `Catalogue.merge_assoc`, `Catalogue.merge_self`: the laws;
* `Catalogue.check_merge`: catalogues that pass the check make one that passes it;
* `catalogues_overlay_in_order`: all of it together.
-/

namespace ShaderNodes

namespace Roster

universe u v

variable {α : Type u} {κ : Type v} [Keyed α κ] [DecidableEq κ]

/-- Distinct keys that are added one after the other come last, in order, if they are new. -/
theorem foldl_new_keys (seen ks : List κ) (h : ks.Nodup) :
    ks.foldl (fun seen k => if k ∈ seen then seen else seen ++ [k]) seen =
      seen ++ ks.filter fun k => k ∉ seen := by
  induction ks generalizing seen with
  | nil => simp
  | cons k ks ih =>
    rw [List.nodup_cons] at h
    rw [List.foldl_cons, ih _ h.2]
    by_cases hk : k ∈ seen
    · rw [if_pos hk, List.filter_cons_of_neg (by simpa using hk)]
    · have hothers : ks.filter (fun k' => k' ∉ seen ++ [k]) = ks.filter fun k' => k' ∉ seen := by
        apply List.filter_congr
        intro k' hk'
        have hne : k' ≠ k := fun heq => h.1 (heq ▸ hk')
        simp [hne]
      rw [if_neg hk, hothers, List.filter_cons_of_pos (by simpa using hk), List.append_assoc]
      rfl

theorem keys_putAll_entries (r s : Roster α) :
    (r.putAll s.entries).keys = r.keys ++ s.keys.filter fun k => k ∉ r.keys := by
  rw [keys_putAll]
  exact foldl_new_keys _ _ s.nodup_keys

theorem get?_putAll_entries (r s : Roster α) (k : κ) :
    (r.putAll s.entries).get? k = (s.get? k).or (r.get? k) := by
  have hown : s.get? k = s.entries.reverse.find? fun x => key x = k := by
    calc
      s.get? k = (ofList s.entries).get? k := by rw [ofList_entries]
      _ = (s.entries.reverse.find? fun x => key x = k).or none := get?_putAll _ _ _
      _ = _ := Option.or_none
  rw [get?_putAll, hown]

end Roster

namespace Catalogue

variable (a b c : Catalogue)

theorem keys_merge : (a.merge b).keys = a.keys ++ b.keys.filter fun k => k ∉ a.keys :=
  Roster.keys_putAll_entries a b

theorem get?_merge (k : TypeId) : (a.merge b).get? k = (b.get? k).or (a.get? k) :=
  Roster.get?_putAll_entries a b k

theorem merge_assoc : (a.merge b).merge c = a.merge (b.merge c) := by
  apply Roster.ext_of_keys
  · have hnew : c.keys.filter (fun k => k ∉ a.keys ++ b.keys.filter fun k => k ∉ a.keys) =
        (c.keys.filter fun k => k ∉ b.keys).filter fun k => k ∉ a.keys := by
      rw [List.filter_filter]
      apply List.filter_congr
      intro k _
      by_cases ha : k ∈ a.keys
      · simp [ha]
      · simp [ha]
    rw [keys_merge, keys_merge, keys_merge, keys_merge, List.filter_append, hnew,
      List.append_assoc]
  · intro k
    rw [get?_merge, get?_merge, get?_merge, get?_merge, Option.or_assoc]

theorem empty_merge : merge .empty a = a := Roster.ofList_entries a

theorem merge_self : a.merge a = a := by
  apply Roster.ext_of_keys
  · have hnone : (a.keys.filter fun k => k ∉ a.keys) = [] := by
      rw [List.filter_eq_nil_iff]
      intro k hk
      simpa using hk
    rw [keys_merge, hnone, List.append_nil]
  · intro k
    rw [get?_merge, Option.or_self]

variable {a b}

theorem check_merge (ha : a.check = .ok ()) (hb : b.check = .ok ()) :
    (a.merge b).check = .ok () := by
  rw [check_eq_ok_iff] at ha hb ⊢
  intro t ht
  rcases Roster.mem_of_mem_putAll ht with ht | ht
  · exact ha t ht
  · exact hb t ht

end Catalogue

/-- **Catalogues are laid over each other in order.** Laying catalogues over each other is
associative, the empty catalogue changes nothing on either side, and a catalogue laid over itself is
unchanged; all of this holds order included. The names of the lower catalogue come first, in order,
and then the new names of the upper one, in order. Under each name the upper catalogue decides if it
has the name. If both catalogues pass the check, so does the result. -/
theorem catalogues_overlay_in_order (a b c : Catalogue) :
    (a.merge b).merge c = a.merge (b.merge c) ∧
    Catalogue.merge .empty a = a ∧ a.merge .empty = a ∧ a.merge a = a ∧
    ((a.merge b).keys = a.keys ++ b.keys.filter fun k => k ∉ a.keys) ∧
    (∀ k, (a.merge b).get? k = (b.get? k).or (a.get? k)) ∧
    (a.check = .ok () → b.check = .ok () → (a.merge b).check = .ok ()) :=
  ⟨a.merge_assoc b c, a.empty_merge, rfl, a.merge_self, a.keys_merge b, a.get?_merge b,
    Catalogue.check_merge⟩

end ShaderNodes
