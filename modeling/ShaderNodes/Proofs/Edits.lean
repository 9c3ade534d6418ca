import Mathlib
import ShaderNodes.Proofs.Calls
import ShaderNodes.Proofs.Deletion
import ShaderNodes.Proofs.FreshNodes
import ShaderNodes.Proofs.Places

/-!
# What edits do, and when they fail

An edit that fails changes nothing, also when it is made in place. One that succeeds changes what it
names and leaves everything else as it was, order included: a new node comes last and gets a number
above all others, a value or a place is changed where it stands, and joints are replaced where they
stand or go without moving the others. Where nodes are placed has no part in compiling.

* `Roster.Amends`: rosters that differ in one entry;
* `Canvas.exists_nextId_iff`: when there is a number for a new node;
* `Canvas.add_eq_ok_iff` and its likes: what each edit gives;
* `Canvas.Refuses`, `Canvas.Effect`: when an edit fails, and what it does otherwise;
* `edits_atomic_and_framed`: edits are described by these two.
-/

namespace ShaderNodes

/-! ## Rosters that are amended -/

namespace Roster

universe u v

variable {α : Type u} {κ : Type v} [Keyed α κ] [DecidableEq κ]

/-- `s` is `r` with `x` under its key: at the place of what was there before, or else at the end.
Everything else is as it was, in the same order. -/
structure Amends (r s : Roster α) (x : α) : Prop where
  found : s.get? (key x) = some x
  others : s.entries.filter (fun e => key e ≠ key x) = r.entries.filter fun e => key e ≠ key x
  keys : s.keys = if key x ∈ r.keys then r.keys else r.keys ++ [key x]

theorem amends_put (r : Roster α) (x : α) : r.Amends (r.put x) x where
  found := by rw [get?_put, if_pos rfl]
  others := r.filter_entries_put fun y hy => by simp [hy]
  keys := keys_put r x

theorem entries_put_of_not_mem {r : Roster α} {x : α} (h : key x ∉ r.keys) :
    (r.put x).entries = r.entries ++ [x] := by
  rw [entries_put, if_neg fun hc => h ((contains_iff_mem_keys r _).1 hc)]

/-- What an entry has in common with the one that it replaces stays. -/
theorem map_entries_put {β : Type*} {r : Roster α} {x y : α} (hy : y ∈ r.entries)
    (hkey : key y = key x) {f : α → β} (hf : f x = f y) :
    (r.put x).entries.map f = r.entries.map f := by
  have hmem : key x ∈ r.keys := hkey ▸ key_mem_keys hy
  rw [entries_put, if_pos ((contains_iff_mem_keys r _).2 hmem), List.map_map]
  apply List.map_congr_left
  intro e he
  rw [Function.comp_apply]
  split
  · next h => rw [hf, eq_of_key_eq hy he (hkey.trans h.symm)]
  · rfl

end Roster

namespace Canvas

variable {c : Canvas}

/-! ## Numbers for new nodes -/

theorem nextId_of_nil (h : c.graph.nodes.keys = []) : c.nextId = .ok ⟨1⟩ := by
  unfold nextId
  rw [h]
  rfl

/-- There is a number for a new node unless the largest number of all is taken. -/
theorem exists_nextId_iff :
    (∃ id, c.nextId = .ok id) ↔ (⟨4294967295⟩ : NodeId) ∉ c.graph.nodes.keys := by
  constructor
  · rintro ⟨id, hid⟩ hmem
    have hlt := lt_of_nextId hid hmem
    rw [UInt32.lt_iff_toNat_lt] at hlt
    have hle := id.val.toNat_lt
    simp at hlt
    omega
  · intro h
    unfold nextId
    split
    · exact ⟨_, rfl⟩
    · next n hn =>
      obtain ⟨id, hid, rfl⟩ := List.mem_map.1 (List.max?_eq_some_iff.1 hn).1
      have hne : id.val.toNat ≠ 4294967295 := by
        intro heq
        apply h
        have hid' : id = ⟨4294967295⟩ := by
          cases id
          congr
          apply UInt32.toNat_inj.1
          exact heq
        rwa [← hid']
      have hlt := id.val.toNat_lt
      rw [if_pos (by show id.val.toNat + 1 < 4294967296; omega)]
      exact ⟨_, rfl⟩

/-! ## What edits give -/

theorem node_eq_ok_iff {id : NodeId} {n : Node} :
    c.node id = .ok n ↔ c.graph.nodes.get? id = some n := by
  unfold node
  cases c.graph.nodes.get? id <;> simp

theorem add_eq_ok_iff {type : TypeId} {offset : Point} {e : Edited NodeId} :
    c.add type offset = .ok e ↔ ∃ t id, c.types.get? type = some t ∧ c.nextId = .ok id ∧
      e = ⟨c.withNodes (c.graph.nodes.put ⟨id, type, offset, defaults t⟩), id,
        [.nodeAdded id type]⟩ := by
  unfold add
  cases c.types.get? type with
  | none => simp [throw, throwThe, MonadExceptOf.throw]
  | some t =>
    cases c.nextId with
    | error err => simp [bind, Except.bind]
    | ok id => simp [bind, Except.bind, pure, Except.pure, eq_comm, defaults]

theorem setParam_eq_ok_iff {id : NodeId} {param : String} {value : Value} {e : Edited Unit} :
    c.setParam id param value = .ok e ↔ ∃ n, c.graph.nodes.get? id = some n ∧
      e = ⟨c.withNodes (c.graph.nodes.put { n with params := n.params.put ⟨param, value⟩ }), (),
        [.paramSet id param]⟩ := by
  simp only [← node_eq_ok_iff]
  unfold setParam
  cases c.node id with
  | error err => simp [bind, Except.bind]
  | ok n => simp [bind, Except.bind, pure, Except.pure, eq_comm]

theorem move_eq_ok_iff {id : NodeId} {offset : Point} {e : Edited Unit} :
    c.move id offset = .ok e ↔ ∃ n, c.graph.nodes.get? id = some n ∧
      e = ⟨c.withNodes (c.graph.nodes.put { n with offset }), (), []⟩ := by
  simp only [← node_eq_ok_iff]
  unfold move
  cases c.node id with
  | error err => simp [bind, Except.bind]
  | ok n => simp [bind, Except.bind, pure, Except.pure, eq_comm]

theorem connect_eq_ok_iff {source : Outlet} {dest : Inlet} {e : Edited Unit} :
    c.connect source dest = .ok e ↔
      source.node ∈ c.graph.nodes.keys ∧ dest.node ∈ c.graph.nodes.keys ∧
        e = ⟨c.withJoints (c.graph.joints.put ⟨dest, source⟩), (),
          [.connected source.node source.output dest.node dest.input]⟩ := by
  simp only [← Roster.contains_iff_mem_keys]
  unfold connect
  cases c.graph.nodes.contains source.node with
  | false => simp
  | true =>
    cases c.graph.nodes.contains dest.node with
    | false => simp
    | true => simp [eq_comm]

theorem disconnect_eq_some_iff {dest : Inlet} {e : Edited Joint} :
    c.disconnect dest = some e ↔ ∃ j, c.graph.joints.get? dest = some j ∧
      e = ⟨c.withJoints (c.graph.joints.erase dest), j, [.disconnected dest.node dest.input]⟩ := by
  unfold disconnect
  rw [Option.map_eq_some_iff]
  simp only [eq_comm]

theorem delete_eq_ok_iff {id : NodeId} {e : Edited Node} :
    c.delete id = .ok e ↔ ∃ n, c.graph.nodes.get? id = some n ∧
      e = ⟨c.without id, n, [.nodeDeleted id
        (c.graph.joints.size - (c.without id).graph.joints.size)]⟩ := by
  simp only [← node_eq_ok_iff]
  unfold delete
  cases c.node id with
  | error err => simp [bind, Except.bind]
  | ok n => simp [bind, Except.bind, pure, Except.pure, eq_comm, without]

/-! ## When edits fail -/

/-- When an edit fails. -/
def Refuses (c : Canvas) : Edit → Prop
  | .add type _ => type ∉ c.types.keys ∨ ⟨4294967295⟩ ∈ c.graph.nodes.keys
  | .setParam id _ _ => id ∉ c.graph.nodes.keys
  | .move id _ => id ∉ c.graph.nodes.keys
  | .connect source dest => source.node ∉ c.graph.nodes.keys ∨ dest.node ∉ c.graph.nodes.keys
  | .disconnect dest => dest ∉ c.graph.joints.keys
  | .delete id => id ∉ c.graph.nodes.keys

theorem map_toOption_eq_none_iff {ε α β : Type} {x : Except ε α} {f : α → β} :
    x.toOption.map f = none ↔ ¬ ∃ a, x = .ok a := by
  cases x with
  | error err => simp [Except.toOption]
  | ok a => simp [Except.toOption]

theorem edit?_eq_none_iff {edit : Edit} : c.edit? edit = none ↔ c.Refuses edit := by
  cases edit with
  | add type offset =>
    have hadd : (∃ e, c.add type offset = .ok e) ↔
        type ∈ c.types.keys ∧ (⟨4294967295⟩ : NodeId) ∉ c.graph.nodes.keys := by
      rw [Roster.mem_keys_iff, ← exists_nextId_iff]
      simp [add_eq_ok_iff]
    rw [edit?, map_toOption_eq_none_iff, hadd, Refuses]
    tauto
  | setParam id param value =>
    rw [edit?, map_toOption_eq_none_iff, Refuses, Roster.mem_keys_iff]
    simp [setParam_eq_ok_iff]
  | move id offset =>
    rw [edit?, map_toOption_eq_none_iff, Refuses, Roster.mem_keys_iff]
    simp [move_eq_ok_iff]
  | connect source dest =>
    rw [edit?, map_toOption_eq_none_iff, Refuses]
    simp [connect_eq_ok_iff]
    tauto
  | disconnect dest =>
    rw [edit?, Option.map_eq_none_iff, Refuses, Roster.mem_keys_iff, disconnect,
      Option.map_eq_none_iff, Option.eq_none_iff_forall_ne_some, not_exists]
  | delete id =>
    rw [edit?, map_toOption_eq_none_iff, Refuses, Roster.mem_keys_iff]
    simp [delete_eq_ok_iff]

/-! ## What edits do -/

/-- What an edit makes of the graph when it succeeds. -/
def Effect (c : Canvas) : Edit → Graph → Prop
  | .add type offset, g => ∃ t n, c.types.get? type = some t ∧
    g.nodes.entries = c.graph.nodes.entries ++ [n] ∧ g.joints = c.graph.joints ∧
    n.type = type ∧ n.offset = offset ∧
    (n.params.entries = t.params.entries.map fun p => ⟨p.name, .default p.type⟩) ∧
    (∀ id ∈ c.graph.nodes.keys, id.val < n.id.val) ∧
    (c.graph.nodes.entries = [] → n.id = ⟨1⟩)
  | .setParam id param value, g => ∃ n params, c.graph.nodes.get? id = some n ∧
    n.params.Amends params ⟨param, value⟩ ∧ c.graph.nodes.Amends g.nodes { n with params } ∧
    g.joints = c.graph.joints
  | .move id offset, g => ∃ n, c.graph.nodes.get? id = some n ∧
    c.graph.nodes.Amends g.nodes { n with offset } ∧ g.joints = c.graph.joints
  | .connect source dest, g =>
    g.nodes = c.graph.nodes ∧ c.graph.joints.Amends g.joints ⟨dest, source⟩
  | .disconnect dest, g => g.nodes = c.graph.nodes ∧
    g.joints.entries = c.graph.joints.entries.filter fun j => j.dest ≠ dest
  | .delete id, g =>
    (g.nodes.entries = c.graph.nodes.entries.filter fun n => n.id ≠ id) ∧
    g.joints.entries = c.graph.joints.entries.filter fun j => ¬ j.Touches id

theorem entries_defaults (t : NodeType) :
    (defaults t).entries = t.params.entries.map fun p => ⟨p.name, .default p.type⟩ := by
  apply Roster.entries_putAll
  have hkeys : (t.params.entries.map fun p => (⟨p.name, .default p.type⟩ : Binding)).map key =
      t.params.keys := by
    rw [List.map_map]
    rfl
  rw [hkeys]
  exact t.params.keys_nodup

theorem effect_of_edit {edit : Edit} {c' : Canvas} (h : c.edit? edit = some c') :
    c.Effect edit c'.graph := by
  cases edit with
  | add type offset =>
    obtain ⟨e, he, rfl⟩ := exists_of_toOption h
    obtain ⟨t, id, ht, hid, rfl⟩ := add_eq_ok_iff.1 he
    refine ⟨t, ⟨id, type, offset, defaults t⟩, ht, ?_, rfl, rfl, rfl, entries_defaults t, ?_, ?_⟩
    · exact Roster.entries_put_of_not_mem (nextId_not_mem hid)
    · intro n hn
      exact lt_of_nextId hid hn
    · intro hnil
      have hone := nextId_of_nil (c := c) (congrArg (List.map key) hnil)
      exact Except.ok.inj (hid.symm.trans hone)
  | setParam id param value =>
    obtain ⟨e, he, rfl⟩ := exists_of_toOption h
    obtain ⟨n, hn, rfl⟩ := setParam_eq_ok_iff.1 he
    exact ⟨n, _, hn, Roster.amends_put _ _, Roster.amends_put _ _, rfl⟩
  | move id offset =>
    obtain ⟨e, he, rfl⟩ := exists_of_toOption h
    obtain ⟨n, hn, rfl⟩ := move_eq_ok_iff.1 he
    exact ⟨n, hn, Roster.amends_put _ _, rfl⟩
  | connect source dest =>
    obtain ⟨e, he, rfl⟩ := exists_of_toOption h
    obtain ⟨-, -, rfl⟩ := connect_eq_ok_iff.1 he
    exact ⟨rfl, Roster.amends_put _ _⟩
  | disconnect dest =>
    obtain ⟨e, he, rfl⟩ := Option.map_eq_some_iff.1 h
    obtain ⟨j, -, rfl⟩ := disconnect_eq_some_iff.1 he
    exact ⟨rfl, rfl⟩
  | delete id =>
    obtain ⟨e, he, rfl⟩ := exists_of_toOption h
    obtain ⟨n, -, rfl⟩ := delete_eq_ok_iff.1 he
    refine ⟨rfl, ?_⟩
    apply List.filter_congr
    intro j _
    simp [Joint.Touches]

/-- A node that is moved is the same but for its place. -/
theorem compile_of_move {id : NodeId} {offset : Point} {e : Edited Unit}
    (h : c.move id offset = .ok e) (env : Envelope) : e.canvas.compile env = c.compile env := by
  obtain ⟨n, hn, rfl⟩ := move_eq_ok_iff.1 h
  obtain ⟨hmem, -⟩ := Roster.mem_of_get? hn
  apply Graph.compile_of_places
  exact ⟨Roster.map_entries_put (x := { n with offset }) hmem rfl rfl, rfl⟩

end Canvas

/-- **Edits do what they name, or nothing.** An edit fails in just the cases of `Canvas.Refuses`,
and then a call for it leaves the canvas as it is, with nothing half done and nothing reported.
Otherwise the types stay as they are and the graph becomes what `Canvas.Effect` says. Each call
comes to its edit, error and result included. What is given back is the number of the new node, the
joint that was removed or the node that was deleted. Moving a node makes no difference to
compiling. -/
theorem edits_atomic_and_framed (c : Canvas) :
    (∀ edit, c.edit? edit = none ↔ c.Refuses edit) ∧
    (∀ edit, c.edit? edit = none → c.after [edit] = c ∧
      ∀ events, (⟨c, events⟩ : Desk).carryOut edit = (false, ⟨c, events⟩)) ∧
    (∀ edit c', c.edit? edit = some c' →
      c.after [edit] = c' ∧ c'.types = c.types ∧ c.Effect edit c'.graph ∧
      ∀ events, ∃ news, (⟨c, events⟩ : Desk).carryOut edit = (true, ⟨c', events ++ news⟩)) ∧
    ((∀ type offset, (Call.add type offset).Performs (Canvas.add · type offset)) ∧
      (∀ id param value, (Call.setParam id param value).Performs
        (Canvas.setParam · id param value)) ∧
      (∀ id offset, (Call.move id offset).Performs (Canvas.move · id offset)) ∧
      (∀ source dest, (Call.connect source dest).Performs (Canvas.connect · source dest)) ∧
      (∀ dest, (Call.disconnect dest).Performs fun c => (c.disconnect dest).elim (.error ()) .ok) ∧
      ∀ id, (Call.delete id).Performs (Canvas.delete · id)) ∧
    (∀ type offset e, c.add type offset = .ok e →
      e.canvas.graph.nodes.keys = c.graph.nodes.keys ++ [e.result]) ∧
    (∀ dest e, c.disconnect dest = some e → c.graph.joints.get? dest = some e.result) ∧
    (∀ id e, c.delete id = .ok e → c.graph.nodes.get? id = some e.result) ∧
    ∀ id offset e, c.move id offset = .ok e → ∀ env, e.canvas.compile env = c.compile env := by
  have hafter : ∀ edit, c.after [edit] = (c.edit? edit).getD c := fun _ => rfl
  refine ⟨fun _ => Canvas.edit?_eq_none_iff, ?_, ?_, ?_, ?_, ?_, ?_, ?_⟩
  · intro edit h
    refine ⟨?_, fun events => (Desk.carryOut_spec ⟨c, events⟩ edit).1 h⟩
    rw [hafter, h, Option.getD_none]
  · intro edit c' h
    refine ⟨?_, (Canvas.change_of_edit h).types_eq, Canvas.effect_of_edit h, fun events => ?_⟩
    · rw [hafter, h, Option.getD_some]
    · exact (Desk.carryOut_spec ⟨c, events⟩ edit).2 c' h
  · exact ⟨Call.performs_add, Call.performs_setParam, Call.performs_move, Call.performs_connect,
      Call.performs_disconnect, Call.performs_delete⟩
  · intro type offset e h
    obtain ⟨t, id, -, hid, rfl⟩ := Canvas.add_eq_ok_iff.1 h
    exact (Roster.keys_put _ _).trans (if_neg (Canvas.nextId_not_mem hid))
  · intro dest e h
    obtain ⟨j, hj, rfl⟩ := Canvas.disconnect_eq_some_iff.1 h
    exact hj
  · intro id e h
    obtain ⟨n, hn, rfl⟩ := Canvas.delete_eq_ok_iff.1 h
    exact hn
  · intro id offset e h env
    exact Canvas.compile_of_move h env

end ShaderNodes
