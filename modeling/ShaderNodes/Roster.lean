/-!
# Rosters

A roster lists entries in the order in which their keys first appeared, with one entry per key.
Putting an entry under a key that is present replaces the old entry in its place. Two rosters are
alike when they hold alike entries under the same keys, in whatever order.
-/

namespace ShaderNodes

universe u v

/-- Entries that carry their own key. -/
class Keyed (α : Type u) (κ : outParam (Type v)) where
  /-- The key under which the entry is kept. -/
  key : α → κ

export Keyed (key)

/-- A text is its own key, so a roster of texts is an ordered set. -/
instance : Keyed String String := ⟨id⟩

/-- Likeness as users of the data see it: numbers are compared by value, and the order in which a
roster lists its entries does not matter. -/
class Alike (α : Type u) where
  /-- Whether two values are alike. -/
  alike : α → α → Bool

export Alike (alike)

instance : Alike String := ⟨fun a b => decide (a = b)⟩

/-- Entries in order of first appearance, one per key. -/
structure Roster (α : Type u) {κ : Type v} [Keyed α κ] where
  /-- The entries in order. -/
  entries : List α
  /-- No key occurs twice. -/
  nodup_keys : (entries.map key).Nodup

namespace Roster

variable {α : Type u} {κ : Type v} [Keyed α κ]

@[ext] theorem ext {r s : Roster α} (h : r.entries = s.entries) : r = s := by
  cases r; cases s; cases h; rfl

instance [DecidableEq α] : DecidableEq (Roster α) := fun r s =>
  decidable_of_iff (r.entries = s.entries) ⟨ext, fun h => h ▸ rfl⟩

/-- The roster without entries. -/
def empty : Roster α := ⟨[], List.nodup_nil⟩

instance : Inhabited (Roster α) := ⟨empty⟩

@[simp] theorem entries_empty : (empty : Roster α).entries = [] := rfl

/-- The keys in order. -/
def keys (r : Roster α) : List κ := r.entries.map key

/-- How many entries there are. -/
def size (r : Roster α) : Nat := r.entries.length

/-- Whether there are no entries. -/
def isEmpty (r : Roster α) : Bool := r.entries.isEmpty

/-- The entries that satisfy `p`, in order. -/
def filter (p : α → Bool) (r : Roster α) : Roster α :=
  ⟨r.entries.filter p, r.nodup_keys.sublist (List.filter_sublist.map key)⟩

variable [DecidableEq κ]

/-- The entry under `k`. -/
def get? (r : Roster α) (k : κ) : Option α := r.entries.find? fun e => key e = k

/-- Whether there is an entry under `k`. -/
def contains (r : Roster α) (k : κ) : Bool := r.entries.any fun e => key e = k

/-- The roster without the entry under `k`. -/
def erase (r : Roster α) (k : κ) : Roster α := r.filter fun e => key e ≠ k

private theorem map_key_replace (es : List α) (x : α) :
    (es.map fun e => if key e = key x then x else e).map key = es.map key := by
  rw [List.map_map]
  refine List.map_congr_left fun e _ => ?_
  simp only [Function.comp_apply]
  split
  · next h => exact h.symm
  · rfl

/-- Adds `x` at the end, or in place of the entry with the same key. -/
def put (r : Roster α) (x : α) : Roster α :=
  if h : r.contains (key x) then
    ⟨r.entries.map fun e => if key e = key x then x else e,
      (map_key_replace r.entries x).symm ▸ r.nodup_keys⟩
  else
    ⟨r.entries ++ [x], by
      rw [List.map_append, List.nodup_append]
      refine ⟨r.nodup_keys, by simp, ?_⟩
      intro a ha b hb
      obtain ⟨e, he, rfl⟩ := List.mem_map.1 ha
      simp only [List.map_cons, List.map_nil, List.mem_singleton] at hb
      subst hb
      intro hk
      exact h (List.any_eq_true.2 ⟨e, he, decide_eq_true hk⟩)⟩

/-- Puts the entries one after the other: of those under one key the last one stays, at the place
of the first. -/
def putAll (r : Roster α) (xs : List α) : Roster α := xs.foldl put r

/-- The roster of a list of entries. -/
def ofList (xs : List α) : Roster α := empty.putAll xs

instance [Alike α] : Alike (Roster α) where
  alike r s := r.size == s.size && r.entries.all fun e => (s.get? (key e)).any (alike e)

theorem entries_put (r : Roster α) (x : α) :
    (r.put x).entries =
      if r.contains (key x) then r.entries.map fun e => if key e = key x then x else e
      else r.entries ++ [x] := by
  unfold put
  split <;> rfl

end Roster

end ShaderNodes
