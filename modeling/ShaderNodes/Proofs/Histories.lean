import Mathlib
import ShaderNodes.Canvas
import ShaderNodes.Proofs.Diagnostics

/-!
# What edits keep up

However a canvas has been edited, its joints lead between nodes that are there, and its nodes have
types of the catalogue and values for all their parameters. So the errors of a graph that has been
drawn by edits alone are about connections and the types of values, never about something that is
not there.

* `Canvas.Change`: everything an edit can do;
* `Canvas.Sound`: what edits keep up;
* `sound_after_edits`: it holds after every history of edits, and what follows for compiling.
-/

namespace ShaderNodes

/-! ## Edits -/

/-- An edit with its arguments. -/
inductive Edit
  | add (type : TypeId) (offset : Point)
  | setParam (node : NodeId) (param : String) (value : Value)
  | move (node : NodeId) (offset : Point)
  | connect (source : Outlet) (dest : Inlet)
  | disconnect (dest : Inlet)
  | delete (node : NodeId)

namespace Canvas

/-- The canvas after an edit, if the edit succeeds. -/
def edit? (c : Canvas) : Edit → Option Canvas
  | .add type offset => (c.add type offset).toOption.map Edited.canvas
  | .setParam node param value => (c.setParam node param value).toOption.map Edited.canvas
  | .move node offset => (c.move node offset).toOption.map Edited.canvas
  | .connect source dest => (c.connect source dest).toOption.map Edited.canvas
  | .disconnect dest => (c.disconnect dest).map Edited.canvas
  | .delete node => (c.delete node).toOption.map Edited.canvas

/-- The canvas after a history of edits. Edits that fail change nothing. -/
def after (c : Canvas) (edits : List Edit) : Canvas :=
  edits.foldl (fun c edit => (c.edit? edit).getD c) c

/-- The values that a new node of a type is given. -/
def defaults (t : NodeType) : Roster Binding :=
  .ofList (t.params.entries.map fun p => ⟨p.name, Value.default p.type⟩)

/-- What an edit can do to a canvas. -/
inductive Change (c : Canvas) : Canvas → Prop
  | place {id : NodeId} {type : TypeId} {t : NodeType} {offset : Point}
    (htype : c.types.get? type = some t) (hid : c.nextId = .ok id) :
    Change c (c.withNodes (c.graph.nodes.put ⟨id, type, offset, defaults t⟩))
  | bind {n : Node} (h : n ∈ c.graph.nodes.entries) (param : String) (value : Value) :
    Change c (c.withNodes (c.graph.nodes.put { n with params := n.params.put ⟨param, value⟩ }))
  | move {n : Node} (h : n ∈ c.graph.nodes.entries) (offset : Point) :
    Change c (c.withNodes (c.graph.nodes.put { n with offset }))
  | connect {source : Outlet} {dest : Inlet} (hsource : source.node ∈ c.graph.nodes.keys)
    (hdest : dest.node ∈ c.graph.nodes.keys) :
    Change c (c.withJoints (c.graph.joints.put ⟨dest, source⟩))
  | disconnect {j : Joint} (h : j ∈ c.graph.joints.entries) :
    Change c (c.withJoints (c.graph.joints.erase j.dest))
  | delete {n : Node} (h : n ∈ c.graph.nodes.entries) :
    Change c { c with graph := ⟨c.graph.nodes.erase n.id,
      c.graph.joints.filter fun j => j.source.node ≠ n.id && j.dest.node ≠ n.id⟩ }

theorem exists_of_toOption {ε α β : Type} {x : Except ε α} {f : α → β} {b : β}
    (h : x.toOption.map f = some b) : ∃ a, x = .ok a ∧ f a = b := by
  cases x with
  | error e => cases h
  | ok a => exact ⟨a, rfl, Option.some.inj h⟩

theorem node_eq_ok {c : Canvas} {id : NodeId} {n : Node} (h : c.node id = .ok n) :
    n ∈ c.graph.nodes.entries ∧ n.id = id := by
  unfold node at h
  split at h
  · next hget =>
    cases h
    exact Roster.mem_of_get? hget
  · cases h

theorem change_of_edit {c c' : Canvas} {edit : Edit} (h : c.edit? edit = some c') :
    c.Change c' := by
  cases edit with
  | add type offset =>
    obtain ⟨e, he, rfl⟩ := exists_of_toOption h
    unfold add at he
    split at he
    · cases he
    · next t htype =>
      cases hid : c.nextId with
      | error _ => rw [hid] at he; cases he
      | ok id =>
        rw [hid] at he
        cases he
        exact .place htype hid
  | setParam id param value =>
    obtain ⟨e, he, rfl⟩ := exists_of_toOption h
    unfold setParam at he
    cases hn : c.node id with
    | error _ => rw [hn] at he; cases he
    | ok n =>
      rw [hn] at he
      cases he
      exact .bind (node_eq_ok hn).1 param value
  | move id offset =>
    obtain ⟨e, he, rfl⟩ := exists_of_toOption h
    unfold move at he
    cases hn : c.node id with
    | error _ => rw [hn] at he; cases he
    | ok n =>
      rw [hn] at he
      cases he
      exact .move (node_eq_ok hn).1 offset
  | connect source dest =>
    obtain ⟨e, he, rfl⟩ := exists_of_toOption h
    unfold connect at he
    split at he
    · cases he
    · next hsource =>
      split at he
      · cases he
      · next hdest =>
        cases he
        refine .connect ?_ ?_
        · exact (Roster.contains_iff_mem_keys _ _).1 (by simpa using hsource)
        · exact (Roster.contains_iff_mem_keys _ _).1 (by simpa using hdest)
  | disconnect dest =>
    obtain ⟨e, he, rfl⟩ := Option.map_eq_some_iff.1 h
    obtain ⟨j, hj, rfl⟩ := Option.map_eq_some_iff.1 he
    obtain ⟨hmem, rfl⟩ := Roster.mem_of_get? hj
    exact .disconnect hmem
  | delete id =>
    obtain ⟨e, he, rfl⟩ := exists_of_toOption h
    unfold delete at he
    cases hn : c.node id with
    | error _ => rw [hn] at he; cases he
    | ok n =>
      obtain ⟨hmem, rfl⟩ := node_eq_ok hn
      rw [hn] at he
      cases he
      exact .delete hmem

/-! ## What edits keep up -/

/-- The node has a type of the catalogue and a value for each of its parameters. -/
def Complete (types : Catalogue) (n : Node) : Prop :=
  ∃ t, types.get? n.type = some t ∧ ∀ p ∈ t.params.entries, ∃ v, n.value? p.name = some v

structure Sound (c : Canvas) : Prop where
  ends : ∀ j ∈ c.graph.joints.entries,
    j.source.node ∈ c.graph.nodes.keys ∧ j.dest.node ∈ c.graph.nodes.keys
  inlets : (c.graph.joints.entries.map Joint.dest).Nodup
  complete : ∀ n ∈ c.graph.nodes.entries, Complete c.types n

theorem complete_defaults {types : Catalogue} {type : TypeId} {t : NodeType}
    (h : types.get? type = some t) (id : NodeId) (offset : Point) :
    Complete types ⟨id, type, offset, defaults t⟩ := by
  refine ⟨t, h, fun p hp => ?_⟩
  have hkey : p.name ∈ (defaults t).keys :=
    Roster.mem_keys_ofList.2 ⟨_, List.mem_map_of_mem hp, rfl⟩
  obtain ⟨b, hb⟩ := Roster.mem_keys_iff.1 hkey
  exact ⟨b.value, by rw [Node.value?, hb]; rfl⟩

theorem Complete.bind {types : Catalogue} {n : Node} (h : Complete types n) (param : String)
    (value : Value) : Complete types { n with params := n.params.put ⟨param, value⟩ } := by
  obtain ⟨t, ht, hbound⟩ := h
  refine ⟨t, ht, fun p hp => ?_⟩
  obtain ⟨v, hv⟩ := hbound p hp
  unfold Node.value?
  rw [Roster.get?_put]
  split
  · exact ⟨value, rfl⟩
  · exact ⟨v, hv⟩

namespace Sound

theorem new (types : Catalogue) : (Canvas.new types).Sound where
  ends j hj := by cases hj
  inlets := List.nodup_nil
  complete n hn := by cases hn

/-- A node can be put if it is complete; no node goes away. -/
theorem withNodes_put {c : Canvas} (h : c.Sound) {n : Node} (hn : Complete c.types n) :
    (c.withNodes (c.graph.nodes.put n)).Sound where
  ends j hj := by
    obtain ⟨hsource, hdest⟩ := h.ends j hj
    exact ⟨Roster.mem_keys_put.2 (Or.inl hsource), Roster.mem_keys_put.2 (Or.inl hdest)⟩
  inlets := h.inlets
  complete m hm := by
    rcases Roster.mem_put.1 hm with rfl | ⟨hm, -⟩
    · exact hn
    · exact h.complete m hm

theorem change {c c' : Canvas} (h : c.Sound) (hchange : c.Change c') : c'.Sound := by
  cases hchange with
  | place htype _ => exact h.withNodes_put (complete_defaults htype _ _)
  | bind hn param value => exact h.withNodes_put ((h.complete _ hn).bind param value)
  | @move n hn offset =>
    have hmoved : Complete c.types { n with offset } := h.complete n hn
    exact h.withNodes_put hmoved
  | connect hsource hdest =>
    refine ⟨fun j hj => ?_, Roster.keys_nodup _, h.complete⟩
    rcases Roster.mem_put.1 hj with rfl | ⟨hj, -⟩
    · exact ⟨hsource, hdest⟩
    · exact h.ends j hj
  | disconnect _ =>
    refine ⟨fun j hj => ?_, Roster.keys_nodup _, h.complete⟩
    exact h.ends j (Roster.mem_erase.1 hj).1
  | @delete n hn =>
    refine ⟨fun j hj => ?_, Roster.keys_nodup _, fun m hm => ?_⟩
    · obtain ⟨hj, hother⟩ := List.mem_filter.1 hj
      obtain ⟨hsource, hdest⟩ := h.ends j hj
      have hkeep {id : NodeId} (hid : id ∈ c.graph.nodes.keys) (hne : id ≠ n.id) :
          id ∈ (c.graph.nodes.erase n.id).keys := by
        obtain ⟨m, hm, rfl⟩ := List.mem_map.1 hid
        exact Roster.key_mem_keys (Roster.mem_erase.2 ⟨hm, hne⟩)
      simp only [Bool.and_eq_true, decide_eq_true_eq] at hother
      exact ⟨hkeep hsource hother.1, hkeep hdest hother.2⟩
    · exact h.complete m (Roster.mem_erase.1 hm).1

end Sound

theorem Change.types_eq {c c' : Canvas} (h : c.Change c') : c'.types = c.types := by
  cases h <;> rfl

theorem edit_cases (c : Canvas) (edit : Edit) :
    (c.edit? edit).getD c = c ∨ c.Change ((c.edit? edit).getD c) := by
  cases h : c.edit? edit with
  | none => exact Or.inl rfl
  | some c' => exact Or.inr (change_of_edit h)

/-- What edits do not change holds throughout a history. -/
theorem after_induction {P : Canvas → Prop} (hchange : ∀ c c', P c → c.Change c' → P c')
    {c : Canvas} (h : P c) (edits : List Edit) : P (c.after edits) := by
  unfold after
  induction edits generalizing c with
  | nil => exact h
  | cons edit edits ih =>
    rw [List.foldl_cons]
    refine ih ?_
    rcases edit_cases c edit with heq | hstep
    · rwa [heq]
    · exact hchange _ _ h hstep

end Canvas

/-! ## Errors about what is not there -/

namespace Problem

/-- The problem is reported as something that is not there: a node, its type or the value of a
parameter. -/
def Missing (p : Problem) : Prop :=
  p.message = "Node not found" ∨ (∃ type, p.message = "Type '" ++ type ++ "' not found") ∨
    ∃ param, p.message = "Parameter '" ++ param ++ "' not set"

theorem not_missing_of_opening {p : Problem} (text : String) (hp : p.message = text)
    (h : text.toList.take 6 ∉ ["Node n".toList, "Type '".toList, "Parame".toList]) :
    ¬ p.Missing := by
  subst hp
  rintro (hnode | ⟨type, htype⟩ | ⟨param, hparam⟩)
  · exact h (by simp [hnode])
  · exact h (by simp [htype])
  · exact h (by simp [hparam])

theorem not_missing_of_ending {p : Problem} (text : String) (hp : p.message = text)
    (h : text.toList.getLast? ∉ [some 'd', some 't']) : ¬ p.Missing := by
  subst hp
  rintro (hnode | ⟨type, htype⟩ | ⟨param, hparam⟩)
  · exact h (by simp [hnode])
  · rw [htype, String.toList_append, List.getLast?_append] at h
    simp at h
  · rw [hparam, String.toList_append, List.getLast?_append] at h
    simp at h

/-- The texts of other problems are told apart by how they start, or by how they end. -/
theorem missing_iff {p : Problem} :
    p.Missing ↔ p = .nodeNotFound ∨ (∃ type, p = .typeNotFound type) ∨
      ∃ param, p = .paramNotSet param := by
  constructor
  · intro h
    cases p with
    | nodeNotFound => exact Or.inl rfl
    | typeNotFound type => exact Or.inr (Or.inl ⟨type, rfl⟩)
    | notConnected input =>
      refine absurd h (not_missing_of_opening ("Input '" ++ _ ++ _) rfl ?_)
      simp
    | sourceNotFound input =>
      refine absurd h (not_missing_of_opening ("Node for input '" ++ _ ++ _) rfl ?_)
      simp
    | outputNotFound output source input =>
      refine absurd h (not_missing_of_opening ("Output '" ++ _ ++ _ ++ _ ++ _ ++ _ ++ _) rfl ?_)
      simp
    | noOverload =>
      refine absurd h (not_missing_of_opening "No suitable overload found" rfl ?_)
      simp
    | paramNotSet param => exact Or.inr (Or.inr ⟨param, rfl⟩)
    | paramMistyped param expected found =>
      refine absurd h (not_missing_of_ending (_ ++ "'") rfl ?_)
      rw [String.toList_append, List.getLast?_append]
      simp
    | cycle path =>
      refine absurd h (not_missing_of_opening ("Cyclic dependency found: " ++ _) rfl ?_)
      simp
    | resultNotFound =>
      refine absurd h (not_missing_of_opening "Output 'All' not found" rfl ?_)
      simp
  · rintro (rfl | ⟨type, rfl⟩ | ⟨param, rfl⟩)
    · exact Or.inl rfl
    · exact Or.inr (Or.inl ⟨_, rfl⟩)
    · exact Or.inr (Or.inr ⟨_, rfl⟩)

end Problem

namespace Fragment

theorem not_missing_of_mem_resolveInput {node : NodeId} {joints : List Joint}
    {lookup : NodeId → Option Outcome} {input : String} {d : Diagnostic}
    (h : d ∈ Checked.errors (resolveInput node joints lookup input)) : ¬ d.problem.Missing := by
  rw [Problem.missing_iff]
  unfold resolveInput at h
  split at h
  · rw [List.mem_singleton.1 h]
    simp
  · split at h
    · split at h
      · cases h
      · rw [List.mem_singleton.1 h]
        simp
    · cases h
    · rw [List.mem_singleton.1 h]
      simp

theorem not_missing_of_mem_chooseOverload {node : NodeId} {type : NodeType}
    {inputs : List (String × Variable)} {d : Diagnostic}
    (h : d ∈ Checked.errors (chooseOverload node type inputs)) : ¬ d.problem.Missing := by
  rw [Problem.missing_iff]
  unfold chooseOverload at h
  split at h
  · cases h
  · rw [List.mem_singleton.1 h]
    simp

theorem not_missing_of_resolveParam {node : Node} {param : Param} {d : Diagnostic}
    (h : resolveParam node param = .error d) (hvalue : ∃ v, node.value? param.name = some v) :
    ¬ d.problem.Missing := by
  obtain ⟨v, hv⟩ := hvalue
  rw [Problem.missing_iff]
  unfold resolveParam at h
  rw [hv] at h
  dsimp only at h
  split at h
  · cases h
  · cases h
    simp

end Fragment

namespace Canvas.Sound

variable {c : Canvas}

/-- Whatever the walk looks at is there and has a type. -/
theorem known (h : c.Sound) {n : NodeId} (hn : n ∈ (walk c.types c.graph).slots.keys) :
    c.graph.Known c.types n := by
  have hplaced : n ∈ c.graph.nodes.keys := by
    rw [Walk.keys_walk] at hn
    rcases Walk.mem_keys_start.1 hn with hn | ⟨m, j, hj, rfl, -⟩
    · exact hn
    · exact (h.ends j hj).1
  obtain ⟨node, hnode⟩ := Roster.mem_keys_iff.1 hplaced
  obtain ⟨type, htype, -⟩ := h.complete node (Roster.mem_of_get? hnode).1
  exact ⟨node, type, hnode, htype⟩

theorem not_missing (h : c.Sound) {d : Diagnostic} (hd : d ∈ (walk c.types c.graph).errors) :
    ¬ d.problem.Missing := by
  rw [Walk.errors_eq] at hd
  obtain ⟨n, hn, hd⟩ := List.mem_flatMap.1 hd
  obtain ⟨node, type, htyped⟩ := h.known hn
  rw [Walk.errorsOf_eq (Walk.outcome?_of_typed htyped), Outcome.errors_blockedBy] at hd
  rcases List.mem_append.1 hd with hcycle | hd
  · obtain ⟨path, -, rfl⟩ := List.mem_map.1 hcycle
    rw [Problem.missing_iff]
    simp
  · rcases Fragment.mem_errors_compile_cases hd with
      ⟨input, -, hinput⟩ | ⟨inputs, hoverload⟩ | ⟨param, hparam, herror⟩
    · exact Fragment.not_missing_of_mem_resolveInput hinput
    · exact Fragment.not_missing_of_mem_chooseOverload hoverload
    · obtain ⟨t, ht, hvalues⟩ := h.complete node (Roster.mem_of_get? htyped.1).1
      obtain rfl : t = type := Option.some.inj (ht.symm.trans htyped.2)
      exact Fragment.not_missing_of_resolveParam herror (hvalues param hparam)

end Canvas.Sound

/-- **What edits keep up.** After every history of edits of a new canvas, whether they succeed or
fail, the joints lead between nodes that are there, no two of them into the same inlet, and the
nodes have types of the catalogue and values for all their parameters. So compiling the canvas never
reports a node, a type or the value of a parameter as missing. -/
theorem sound_after_edits (types : Catalogue) (env : Envelope) (edits : List Edit) :
    ((Canvas.new types).after edits).types = types ∧
    ((Canvas.new types).after edits).Sound ∧
    (∀ d ∈ (walk types ((Canvas.new types).after edits).graph).errors, ¬ d.problem.Missing) ∧
    ∀ n errors, (n, .error errors) ∈ (((Canvas.new types).after edits).compile env).value →
      ∀ d ∈ errors, ¬ d.problem.Missing := by
  have htypes : ((Canvas.new types).after edits).types = types :=
    Canvas.after_induction (P := fun c => c.types = types)
      (fun _ _ hc hchange => hchange.types_eq.trans hc) rfl edits
  have hsound : ((Canvas.new types).after edits).Sound :=
    Canvas.after_induction (fun _ _ hc hchange => hc.change hchange) (.new types) edits
  have hnone : ∀ d ∈ (walk types ((Canvas.new types).after edits).graph).errors,
      ¬ d.problem.Missing := fun d hd => hsound.not_missing (by rwa [htypes])
  refine ⟨htypes, hsound, hnone, fun n errors hn d hd => ?_⟩
  obtain ⟨rfl, -⟩ := Graph.error_mem_compile hn
  rw [htypes] at hd
  exact hnone d hd

end ShaderNodes
