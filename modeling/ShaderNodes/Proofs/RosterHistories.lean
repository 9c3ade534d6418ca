import Mathlib
import ShaderNodes.Proofs.Diagnostics
import ShaderNodes.Proofs.Readings

/-!
# Rosters and their histories

However a roster has come about, it can be told from its history alone. Every write comes down to
entries that arrive one at a time and entries that depart. Under a key the roster holds what arrived
there last, unless it has departed since. Its keys are listed by the moments at which they last
became present: another entry under the same key leaves the key where it is, and a key that comes
back after it was gone is listed as a new one.

* `Roster.Stands`, `Roster.PresentSince`: what a history says of entries and keys;
* `Roster.Recounts`: the roster is what its history says, and `Recounts.endure`: what one more deed
  does to both;
* `Codec.read_roster_array`: reading an array puts its entries one after the other;
* `written_roster_recounts_history`: every roster is what its history says.
-/

namespace ShaderNodes

open Json Json.Reading

namespace Roster

variable {α κ : Type} [Keyed α κ]

/-! ## Histories -/

/-- What befalls the entries of a roster: one arrives, or all of a kind depart. -/
inductive Deed (α : Type)
  | arrive (x : α)
  | depart (gone : α → Bool)

/-- The deed puts an end to `x`: another entry arrives under its key, or `x` departs. -/
def Deed.Ends (x : α) : Deed α → Prop
  | arrive y => key y = key x
  | depart gone => gone x = true

/-- The entry has arrived, and nothing has put an end to it since. -/
def Stands (history : List (Deed α)) (x : α) : Prop :=
  ∃ earlier later, history = earlier ++ .arrive x :: later ∧ ∀ d ∈ later, ¬ d.Ends x

/-- Some entry stands under the key. -/
def Present (history : List (Deed α)) (k : κ) : Prop := ∃ x, key x = k ∧ Stands history x

/-- The key became present with the deed number `i` and has been present ever since. -/
structure PresentSince (history : List (Deed α)) (k : κ) (i : Nat) : Prop where
  lt : i < history.length
  absent : ¬ Present (history.take i) k
  present : ∀ n, i < n → n ≤ history.length → Present (history.take n) k

theorem not_stands_nil (x : α) : ¬ Stands ([] : List (Deed α)) x := by
  rintro ⟨earlier, later, heq, -⟩
  simp at heq

theorem stands_concat {history : List (Deed α)} {d : Deed α} {x : α} :
    Stands (history ++ [d]) x ↔ d = .arrive x ∨ Stands history x ∧ ¬ d.Ends x := by
  constructor
  · rintro ⟨earlier, later, heq, hlater⟩
    induction later using List.reverseRecOn with
    | nil => exact Or.inl (List.append_singleton_inj.1 heq).2
    | append_singleton later last _ =>
      rw [← List.cons_append, ← List.append_assoc, List.append_singleton_inj] at heq
      obtain ⟨rfl, rfl⟩ := heq
      rw [List.forall_mem_append] at hlater
      exact Or.inr ⟨⟨earlier, later, rfl, hlater.1⟩, hlater.2 _ (List.mem_singleton_self _)⟩
  · rintro (rfl | ⟨⟨earlier, later, rfl, hlater⟩, hd⟩)
    · exact ⟨history, [], rfl, List.forall_mem_nil _⟩
    · refine ⟨earlier, later ++ [d], by simp, ?_⟩
      intro d' hd'
      rcases List.mem_append.1 hd' with hd' | hd'
      · exact hlater d' hd'
      · rwa [List.mem_singleton.1 hd']

/-! ## Moments -/

section moments

variable {history : List (Deed α)} {d : Deed α} {k : κ} {i j : Nat}

theorem PresentSince.unique (hi : PresentSince history k i) (hj : PresentSince history k j) :
    i = j := by
  rcases Nat.lt_trichotomy i j with hlt | heq | hgt
  · exact absurd (hi.present j hlt hj.lt.le) hj.absent
  · exact heq
  · exact absurd (hj.present i hgt hi.lt.le) hi.absent

theorem take_concat {n : Nat} (hn : n ≤ history.length) :
    (history ++ [d]).take n = history.take n :=
  List.take_append_of_le_length hn

/-- A key that stays has been present for as long as before. -/
theorem presentSince_of_stays (hbefore : Present history k) (hafter : Present (history ++ [d]) k) :
    PresentSince (history ++ [d]) k i ↔ PresentSince history k i := by
  have hlength : (history ++ [d]).length = history.length + 1 := by simp
  constructor
  · intro h
    have hlt : i < history.length := by
      have hle := h.lt
      by_contra hge
      have heq : i = history.length := by omega
      apply h.absent
      rwa [take_concat heq.le, heq, List.take_length]
    refine ⟨hlt, ?_, ?_⟩
    · rw [← take_concat hlt.le]
      exact h.absent
    · intro n hin hn
      rw [← take_concat hn]
      exact h.present n hin (by omega)
  · intro h
    have hlt := h.lt
    refine ⟨by omega, ?_, ?_⟩
    · rw [take_concat hlt.le]
      exact h.absent
    · intro n hin hn
      by_cases hle : n ≤ history.length
      · rw [take_concat hle]
        exact h.present n hin hle
      · rwa [List.take_of_length_le (by omega)]

/-- A key that was absent before the last deed has been present since that deed. -/
theorem presentSince_of_comes (hbefore : ¬ Present history k)
    (hafter : Present (history ++ [d]) k) :
    PresentSince (history ++ [d]) k i ↔ i = history.length := by
  have hlength : (history ++ [d]).length = history.length + 1 := by simp
  constructor
  · intro h
    have hlt := h.lt
    by_contra hne
    apply hbefore
    have hpresent := h.present history.length (by omega) (by omega)
    rwa [take_concat le_rfl, List.take_length] at hpresent
  · rintro rfl
    refine ⟨by omega, ?_, ?_⟩
    · rwa [take_concat le_rfl, List.take_length]
    · intro n hin hn
      rwa [List.take_of_length_le (by omega)]

end moments

/-! ## Rosters that go by their histories -/

/-- The roster is what its history says: it holds the entries that stand, and lists their keys by
the moments since which they have been present. -/
structure Recounts (history : List (Deed α)) (r : Roster α) : Prop where
  mem_iff : ∀ x, x ∈ r.entries ↔ Stands history x
  since : ∀ k ∈ r.keys, ∃ i, PresentSince history k i
  order : r.keys.Pairwise fun a b =>
    ∀ i j, PresentSince history a i → PresentSince history b j → i < j

theorem present_iff {history : List (Deed α)} {r : Roster α}
    (h : ∀ x, x ∈ r.entries ↔ Stands history x) {k : κ} : Present history k ↔ k ∈ r.keys := by
  unfold Present keys
  rw [List.mem_map]
  exact exists_congr fun x => by rw [h, and_comm]

theorem Recounts.nil : Recounts [] (empty : Roster α) where
  mem_iff x := iff_of_false List.not_mem_nil (not_stands_nil x)
  since _ hk := absurd hk List.not_mem_nil
  order := List.Pairwise.nil

variable [DecidableEq κ]

/-- The roster after one more deed. -/
def endure (r : Roster α) : Deed α → Roster α
  | .arrive x => r.put x
  | .depart gone => r.filter fun e => !gone e

theorem mem_endure {r : Roster α} {d : Deed α} {x : α} :
    x ∈ (r.endure d).entries ↔ d = .arrive x ∨ x ∈ r.entries ∧ ¬ d.Ends x := by
  cases d with
  | arrive y => rw [endure, mem_put, Deed.arrive.injEq, eq_comm, Deed.Ends, ← ne_eq, ne_comm]
  | depart gone => simp [endure, filter, Deed.Ends]

/-- What a deed does to the keys: some of them stay, in order, and a new one may come after them. -/
theorem exists_keys_endure (r : Roster α) (d : Deed α) :
    ∃ (kept : List κ) (new : Option κ), (r.endure d).keys = kept ++ new.toList ∧
      kept.Sublist r.keys ∧ ∀ k ∈ new, k ∉ r.keys := by
  cases d with
  | arrive x =>
    rw [endure, keys_put]
    by_cases h : key x ∈ r.keys
    · exact ⟨r.keys, none, by simp [h], List.Sublist.refl _, nofun⟩
    · refine ⟨r.keys, some (key x), if_neg h, List.Sublist.refl _, ?_⟩
      rintro k ⟨⟩
      exact h
  | depart gone =>
    refine ⟨_, none, (List.append_nil _).symm, ?_, nofun⟩
    exact List.filter_sublist.map key

/-- The roster goes by its history, and still does so after one more deed. -/
theorem Recounts.endure {history : List (Deed α)} {r : Roster α} (h : Recounts history r)
    (d : Deed α) : Recounts (history ++ [d]) (r.endure d) := by
  have hmem : ∀ x, x ∈ (r.endure d).entries ↔ Stands (history ++ [d]) x := by
    intro x
    rw [mem_endure, stands_concat, h.mem_iff]
  obtain ⟨kept, new, hkeys, hkept, hnew⟩ := r.exists_keys_endure d
  have hafter : ∀ k ∈ kept ++ new.toList, Present (history ++ [d]) k := by
    intro k hk
    exact (present_iff hmem).2 (hkeys ▸ hk)
  -- Keys that stay keep their moments, and the moment of a new key is the last one.
  have hstays : ∀ k ∈ kept, ∀ i,
      PresentSince (history ++ [d]) k i ↔ PresentSince history k i := by
    intro k hk i
    apply presentSince_of_stays
    · exact (present_iff h.mem_iff).2 (hkept.subset hk)
    · exact hafter k (List.mem_append_left _ hk)
  have hcomes : ∀ k ∈ new.toList, ∀ i,
      PresentSince (history ++ [d]) k i ↔ i = history.length := by
    intro k hk i
    apply presentSince_of_comes
    · exact mt (present_iff h.mem_iff).1 (hnew k (Option.mem_toList.1 hk))
    · exact hafter k (List.mem_append_right _ hk)
  refine ⟨hmem, ?_, ?_⟩
  · rw [hkeys]
    intro k hk
    rcases List.mem_append.1 hk with hk | hk
    · obtain ⟨i, hi⟩ := h.since k (hkept.subset hk)
      exact ⟨i, (hstays k hk i).2 hi⟩
    · exact ⟨_, (hcomes k hk _).2 rfl⟩
  · rw [hkeys, List.pairwise_append]
    refine ⟨?_, ?_, ?_⟩
    · apply (h.order.sublist hkept).imp_of_mem
      intro a b ha hb hab i j hi hj
      exact hab i j ((hstays a ha i).1 hi) ((hstays b hb j).1 hj)
    · cases new with
      | none => exact List.Pairwise.nil
      | some k => exact List.pairwise_singleton _ k
    · intro a ha b hb i j hi hj
      rw [(hcomes b hb j).1 hj]
      exact ((hstays a ha i).1 hi).lt

theorem recounts_foldl (history : List (Deed α)) :
    Recounts history (history.foldl endure empty) := by
  induction history using List.reverseRecOn with
  | nil => exact .nil
  | append_singleton history d ih =>
    rw [List.foldl_append]
    exact ih.endure d

end Roster

/-! ## Reading arrays -/

section reading

variable {α β κ : Type} [Keyed α κ] [DecidableEq κ]

theorem run_value_map {ε : Type} (f : α → β) (x : ExceptT ε Logged α) :
    (f <$> x).run.value = x.run.value.map f := by
  rw [ExceptT.run_map]
  rfl

theorem Codec.parse_map (c : Codec α) (make : α → β) (parts : β → α) (text : String) :
    (c.map make parts).parse text = make <$> c.parse text := by
  simp only [parse, map, map_eq_pure_bind, bind_assoc, pure_bind]

theorem Roster.putAll_nil (r : Roster α) : r.putAll [] = r := rfl

theorem Roster.putAll_cons (r : Roster α) (x : α) (xs : List α) :
    r.putAll (x :: xs) = (r.put x).putAll xs := rfl

/-- Reads entries one after the other and puts each of them at once. -/
def Roster.readOnto (c : Codec α) (r : Roster α) : Items → Reading (Roster α)
  | .nil e => do verdict e.close; pure r
  | .cons j tail => do
    let x ← c.read j
    (r.put x).readOnto c tail

theorem Roster.readOnto_eq (c : Codec α) (r : Roster α) (items : Items) :
    r.readOnto c items = r.putAll <$> c.readItems items := by
  fun_induction readOnto c r items with
  | case1 r e => simp [Codec.readItems, putAll_nil]
  | case2 r j tail ih => simp [Codec.readItems, putAll_cons, ih]

/-- Reading an array puts its entries one after the other, from the empty roster on. -/
theorem Codec.read_roster_array (c : Codec α) (items : Items) :
    c.roster.read (.array items) = Roster.empty.readOnto c items :=
  (Roster.readOnto_eq c _ items).symm

end reading

/-! ## Writes -/

namespace Roster

/-- A way to get a new roster from an old one. -/
inductive Write (α : Type) {κ : Type} [Keyed α κ]
  | put (x : α)
  | erase (k : κ)
  | filter (keep : α → Bool)
  /-- The roster of a list of entries, whatever was there before. -/
  | collect (xs : List α)
  /-- The roster that a text holds, whatever was there before. -/
  | parse (text : String)

variable {α κ : Type} [Keyed α κ] [DecidableEq κ]

/-- The roster after a write. A text that is refused changes nothing. -/
def write (c : Codec α) (r : Roster α) : Write α → Roster α
  | .put x => r.put x
  | .erase k => r.erase k
  | .filter keep => r.filter keep
  | .collect xs => ofList xs
  | .parse text =>
    match (c.roster.parse text).run.value with
    | .ok s => s
    | .error _ => r

/-- The roster after one write after the other, from the empty one on. -/
def written (c : Codec α) (writes : List (Write α)) : Roster α := writes.foldl (write c) empty

/-- All that was there departs, and other entries arrive. -/
def replaced (xs : List α) : List (Deed α) := .depart (fun _ => true) :: xs.map .arrive

/-- What a write comes down to. -/
def Write.deeds (c : Codec α) : Write α → List (Deed α)
  | put x => [.arrive x]
  | erase k => [.depart fun e => key e = k]
  | filter keep => [.depart fun e => !keep e]
  | collect xs => replaced xs
  | parse text =>
    match ((c.list "an array of entities").parse text).run.value with
    | .ok xs => replaced xs
    | .error _ => []

/-- The history that writes make. -/
def historyOf (c : Codec α) (writes : List (Write α)) : List (Deed α) :=
  writes.flatMap (Write.deeds c)

theorem foldl_replaced (r : Roster α) (xs : List α) :
    (replaced xs).foldl endure r = ofList xs := by
  have hempty : r.endure (.depart fun _ => true) = empty := by
    apply ext
    simp [endure, filter]
  rw [replaced, List.foldl_cons, hempty, List.foldl_map]
  rfl

theorem write_eq_foldl (c : Codec α) (r : Roster α) (w : Write α) :
    r.write c w = (w.deeds c).foldl endure r := by
  cases w with
  | put x => rfl
  | erase k =>
    apply ext
    simp [write, Write.deeds, endure, erase, filter]
  | filter keep =>
    apply ext
    simp [write, Write.deeds, endure, filter]
  | collect xs => exact (foldl_replaced r xs).symm
  | parse text =>
    have hparse : (c.roster.parse text).run.value =
        ((c.list "an array of entities").parse text).run.value.map ofList := by
      rw [Codec.roster, Codec.parse_map, run_value_map]
    rw [write, Write.deeds, hparse]
    cases ((c.list "an array of entities").parse text).run.value with
    | error _ => rfl
    | ok xs => exact (foldl_replaced r xs).symm

theorem written_eq_foldl (c : Codec α) (writes : List (Write α)) :
    written c writes = (historyOf c writes).foldl endure empty := by
  rw [historyOf, List.foldl_flatMap, written]
  congr 1
  funext r w
  exact write_eq_foldl c r w

theorem recounts_written (c : Codec α) (writes : List (Write α)) :
    Recounts (historyOf c writes) (written c writes) := by
  rw [written_eq_foldl]
  exact recounts_foldl _

/-! ## Lists with repetitions, and removal -/

/-- Since no key occurs twice, removing an entry takes out one and closes the gap. -/
theorem entries_erase_eq_eraseP (r : Roster α) (k : κ) :
    (r.erase k).entries = r.entries.eraseP fun e => key e = k := by
  have hnodup := r.nodup_keys
  unfold erase filter
  dsimp only
  generalize r.entries = es at hnodup
  induction es with
  | nil => rfl
  | cons e es ih =>
    rw [List.map_cons, List.nodup_cons] at hnodup
    by_cases h : key e = k
    · rw [List.filter_cons_of_neg (by simp [h]), List.eraseP_cons_of_pos (by simp [h]),
        List.filter_eq_self]
      intro e' he'
      apply decide_eq_true
      rintro rfl
      exact hnodup.1 (h ▸ List.mem_map_of_mem he')
    · rw [List.filter_cons_of_pos (by simp [h]), List.eraseP_cons_of_neg (by simp [h]),
        ih hnodup.2]

theorem get?_ofList (xs : List α) (k : κ) :
    (ofList xs).get? k = xs.reverse.find? fun x => key x = k := by
  rw [ofList, get?_putAll]
  exact Option.or_none

end Roster

open Roster

/-- **Rosters are what their histories say.** After all writes, what is found under a key is the
entry that arrived there last and has not departed since. Keys occur once each and lead to their
entries, and they are listed by the moments at which they last became present. Collecting a list and
reading an array put one entry after the other, so that of equal keys the last entry stays at the
place of the first. Removing a key is keeping all entries with other keys. -/
theorem written_roster_recounts_history {α κ : Type} [Keyed α κ] [DecidableEq κ] (c : Codec α)
    (writes : List (Write α)) :
    (∀ k x, (written c writes).get? k = some x ↔ key x = k ∧ Stands (historyOf c writes) x) ∧
    (written c writes).keys.Nodup ∧
    (written c writes).keys.filterMap (written c writes).get? = (written c writes).entries ∧
    (∀ k ∈ (written c writes).keys, ∃! i, PresentSince (historyOf c writes) k i) ∧
    ((written c writes).keys.Pairwise fun a b => ∀ i j,
      PresentSince (historyOf c writes) a i → PresentSince (historyOf c writes) b j → i < j) ∧
    (∀ xs : List α, ofList xs = xs.foldl put empty ∧ (ofList xs).keys = (xs.map key).eraseDups ∧
      ∀ k, (ofList xs).get? k = xs.reverse.find? fun x => key x = k) ∧
    (∀ items, c.roster.read (.array items) = Roster.empty.readOnto c items) ∧
    ∀ (r : Roster α) (k : κ), r.erase k = r.filter (fun e => key e ≠ k) ∧
      (r.erase k).entries = r.entries.eraseP fun e => key e = k := by
  have hrecounts := recounts_written c writes
  refine ⟨?_, keys_nodup _, filterMap_get?_keys _, ?_, hrecounts.order, ?_, c.read_roster_array,
    ?_⟩
  · intro k x
    rw [get?_eq_some_iff, hrecounts.mem_iff, and_comm]
  · intro k hk
    obtain ⟨i, hi⟩ := hrecounts.since k hk
    exact ⟨i, hi, fun j hj => hj.unique hi⟩
  · intro xs
    refine ⟨rfl, ?_, get?_ofList xs⟩
    rw [keys_ofList, firstOccurrences_eq_eraseDups]
  · intro r k
    exact ⟨rfl, entries_erase_eq_eraseP r k⟩

end ShaderNodes
