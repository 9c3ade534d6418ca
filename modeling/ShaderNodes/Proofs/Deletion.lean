import Mathlib
import ShaderNodes.Proofs.Histories

/-!
# What is left of a deleted node

A node is deleted with all joints that touch it, so nothing refers to it any more: it has no slot
when the graph is compiled again, and no error can be its own. The inputs that it fed are open, and
each of them is reported. Such a report is never lost, whatever else is wrong with the node that it
belongs to: errors of a node are only ever collected.

* `Fragment.mem_errors_compile_of_resolveInput`: an error of an input is one of the node;
* `Canvas.delete_eq`, `Canvas.without`: the canvas without a node;
* `delete_leaves_no_reference`: what compiling shows after a node has been deleted.
-/

namespace ShaderNodes

universe u v

/-! ## Errors are collected -/

namespace Checked

variable {ε : Type u} {α β : Type v}

theorem errors_of_succeeds {x : Checked ε α} (h : x.succeeds = true) : x.errors = [] := by
  obtain ⟨a, rfl⟩ := succeeds_iff.1 h
  rfl

theorem errors_all (xs : List (Checked ε α)) : (all xs).errors = xs.flatMap errors := by
  unfold all
  split
  · next hall =>
    have hnone : xs.flatMap errors = [] :=
      List.flatMap_eq_nil_iff.2 fun x hx => errors_of_succeeds (List.all_eq_true.1 hall x hx)
    rw [hnone]
    rfl
  · rfl

theorem errors_both (x : Checked ε α) (y : Checked ε β) :
    (both x y).errors = x.errors ++ y.errors := by
  cases x with
  | ok a => cases y <;> rfl
  | error es =>
    cases y with
    | ok b => exact (List.append_nil es).symm
    | error fs => rfl

theorem mem_errors_bind_left {x : Checked ε α} {k : α → Checked ε β} {e : ε} (h : e ∈ x.errors) :
    e ∈ errors (x >>= k) := by
  cases x with
  | ok a => cases h
  | error es => exact h

end Checked

namespace Fragment

theorem mem_errors_compile_of_resolveInput {node : Node} {type : NodeType} {joints : List Joint}
    {dependencies : List NodeId} {lookup : NodeId → Option Outcome} {input : String}
    {d : Diagnostic} (hinput : input ∈ type.inputs.entries)
    (h : d ∈ Checked.errors (resolveInput node.id joints lookup input)) :
    d ∈ Checked.errors (compile node type joints dependencies lookup) := by
  have hall : d ∈ Checked.errors
      (Checked.all (type.inputs.entries.map (resolveInput node.id joints lookup))) := by
    rw [Checked.errors_all]
    exact List.mem_flatMap.2 ⟨_, List.mem_map_of_mem hinput, h⟩
  unfold compile
  apply Checked.mem_errors_bind_left
  rw [Checked.errors_both]
  exact List.mem_append_left _ (Checked.mem_errors_bind_left hall)

end Fragment

namespace Walk

variable {types : Catalogue} {g : Graph}

/-- What is wrong with a declared input is among the errors of the node. -/
theorem mem_errorsOf_of_resolveInput {n : NodeId} {node : Node} {type : NodeType}
    (htyped : g.Typed types n node type) {input : String} (hinput : input ∈ type.inputs.entries)
    {d : Diagnostic}
    (h : d ∈ Checked.errors
      (Fragment.resolveInput n (g.jointsInto n) (walk types g).outcome? input)) :
    d ∈ (walk types g).errorsOf n := by
  rw [errorsOf_eq (outcome?_of_typed htyped), Outcome.errors_blockedBy]
  obtain rfl := htyped.id_eq
  exact List.mem_append_right _ (Fragment.mem_errors_compile_of_resolveInput hinput h)

theorem notConnected_mem_errorsOf {n : NodeId} {node : Node} {type : NodeType}
    (htyped : g.Typed types n node type) {input : String} (hinput : input ∈ type.inputs.entries)
    (hopen : g.joints.get? ⟨n, input⟩ = none) :
    (⟨n, .notConnected input⟩ : Diagnostic) ∈ (walk types g).errorsOf n := by
  refine mem_errorsOf_of_resolveInput htyped hinput ?_
  unfold Fragment.resolveInput
  rw [Graph.find?_jointsInto, hopen]
  exact List.mem_singleton_self _

end Walk

/-- A placed node with an error has a preview that shows it. -/
theorem Graph.exists_error_mem_of_errorsOf {types : Catalogue} (env : Envelope) {g : Graph}
    {n : NodeId} (hn : n ∈ g.nodes.keys) {d : Diagnostic} (h : d ∈ (walk types g).errorsOf n) :
    ∃ errors, (n, .error errors) ∈ (g.compile types env).value ∧ d ∈ errors := by
  obtain ⟨errors, hmem⟩ := (exists_error_mem_compile_iff_errorsOf types env hn).2
    ⟨n, .refl, List.ne_nil_of_mem h⟩
  obtain ⟨rfl, -⟩ := error_mem_compile hmem
  refine ⟨_, hmem, ?_⟩
  rw [Walk.errors_walk]
  exact List.mem_flatMap.2 ⟨n, List.mem_append_left _ hn, h⟩

/-! ## The canvas without a node -/

namespace Canvas

/-- The canvas without a node and without the joints that touch it. -/
def without (c : Canvas) (d : NodeId) : Canvas :=
  { c with graph := ⟨c.graph.nodes.erase d,
    c.graph.joints.filter fun j => j.source.node ≠ d && j.dest.node ≠ d⟩ }

theorem delete_eq {c : Canvas} {d : NodeId} (h : d ∈ c.graph.nodes.keys) :
    ∃ e, c.delete d = .ok e ∧ e.canvas = c.without d := by
  obtain ⟨n, hn⟩ := Roster.mem_keys_iff.1 h
  have hnode : c.node d = .ok n := by
    unfold node
    rw [hn]
  unfold delete
  rw [hnode]
  exact ⟨_, rfl, rfl⟩

variable {c : Canvas} {d : NodeId}

theorem mem_joints_without {j : Joint} :
    j ∈ (c.without d).graph.joints.entries ↔
      j ∈ c.graph.joints.entries ∧ j.source.node ≠ d ∧ j.dest.node ≠ d := by
  refine List.mem_filter.trans (and_congr_right fun _ => ?_)
  simp only [Bool.and_eq_true, decide_eq_true_eq]

theorem mem_keys_without {n : NodeId} :
    n ∈ (c.without d).graph.nodes.keys ↔ n ∈ c.graph.nodes.keys ∧ n ≠ d := by
  constructor
  · intro h
    obtain ⟨node, hnode, rfl⟩ := List.mem_map.1 h
    obtain ⟨hmem, hne⟩ := Roster.mem_erase.1 hnode
    exact ⟨Roster.key_mem_keys hmem, hne⟩
  · rintro ⟨h, hne⟩
    obtain ⟨node, hnode, rfl⟩ := List.mem_map.1 h
    exact Roster.key_mem_keys (Roster.mem_erase.2 ⟨hnode, hne⟩)

theorem typed_without {n : NodeId} {node : Node} {type : NodeType} (hne : n ≠ d)
    (h : c.graph.Typed c.types n node type) :
    (c.without d).graph.Typed (c.without d).types n node type := by
  refine ⟨?_, h.2⟩
  show (c.graph.nodes.erase d).get? n = some node
  rw [Roster.get?_erase, if_neg hne]
  exact h.1

/-- An input that the node fed is open afterwards. -/
theorem get?_joints_without {j : Joint} (hj : j ∈ c.graph.joints.entries)
    (hsource : j.source.node = d) : (c.without d).graph.joints.get? j.dest = none := by
  cases hget : (c.without d).graph.joints.get? j.dest with
  | none => rfl
  | some j' =>
    obtain ⟨hmem, hdest⟩ := Roster.mem_of_get? hget
    obtain ⟨hj', hne, -⟩ := mem_joints_without.1 hmem
    obtain rfl : j' = j := Roster.eq_of_key_eq hj' hj hdest
    exact absurd hsource hne

/-- Nothing that the walk has a slot for is the deleted node. -/
theorem ne_of_mem_errors {error : Diagnostic}
    (h : error ∈ (walk (c.without d).types (c.without d).graph).errors) : error.node ≠ d := by
  rw [Walk.errors_walk] at h
  obtain ⟨n, hn, herror⟩ := List.mem_flatMap.1 h
  rw [Walk.node_of_mem_errorsOf herror]
  rcases List.mem_append.1 hn with hn | hn
  · exact (mem_keys_without.1 hn).2
  · unfold Graph.unplacedSources at hn
    rw [List.mem_eraseDups] at hn
    obtain ⟨j, hj, rfl⟩ := List.mem_map.1 (List.mem_filter.1 hn).1
    exact (mem_joints_without.1 hj).2.1

end Canvas

/-- **A deleted node leaves nothing behind.** Whether a canvas has been drawn or loaded, a node that
is there can be deleted. Then the other nodes are left, no joint mentions the deleted one, and when
the canvas is compiled again it has no preview and no error. A node of a known type that was fed by
it through a declared input has a failed preview, which reports that the input is not connected. -/
theorem delete_leaves_no_reference (c : Canvas) (env : Envelope) (d : NodeId)
    (hd : d ∈ c.graph.nodes.keys) :
    ∃ e, c.delete d = .ok e ∧ e.canvas.types = c.types ∧
      (∀ n, n ∈ e.canvas.graph.nodes.keys ↔ n ∈ c.graph.nodes.keys ∧ n ≠ d) ∧
      (∀ j ∈ e.canvas.graph.joints.entries, j.source.node ≠ d ∧ j.dest.node ≠ d) ∧
      (∀ n preview, (n, preview) ∈ (e.canvas.compile env).value → n ≠ d) ∧
      (∀ n errors, (n, .error errors) ∈ (e.canvas.compile env).value →
        ∀ error ∈ errors, error.node ≠ d) ∧
      ∀ n node type, n ≠ d → c.graph.Typed c.types n node type →
        ∀ x ∈ type.inputs.entries, ∀ j ∈ c.graph.joints.entries, j.dest = ⟨n, x⟩ →
          j.source.node = d →
          ∃ errors, (n, .error errors) ∈ (e.canvas.compile env).value ∧
            ∃ error ∈ errors, error.node = n ∧
              error.problem.message = "Input '" ++ x ++ "' not connected" := by
  obtain ⟨e, hdelete, hcanvas⟩ := Canvas.delete_eq hd
  refine ⟨e, hdelete, ?_⟩
  rw [hcanvas]
  refine ⟨rfl, fun n => Canvas.mem_keys_without, fun j hj => ?_, fun n preview hn => ?_, ?_, ?_⟩
  · exact (Canvas.mem_joints_without.1 hj).2
  · exact (Canvas.mem_keys_without.1 (Graph.mem_compile_iff.1 hn).1).2
  · intro n errors hn error herror
    obtain ⟨rfl, -⟩ := Graph.error_mem_compile hn
    exact Canvas.ne_of_mem_errors herror
  · intro n node type hne htyped x hx j hj hdest hsource
    have htyped' := Canvas.typed_without hne htyped
    have hopen := Canvas.get?_joints_without hj hsource
    rw [hdest] at hopen
    have herror := Walk.notConnected_mem_errorsOf htyped' hx hopen
    have hplaced := Roster.mem_keys_iff.2 ⟨node, htyped'.1⟩
    obtain ⟨errors, hpreview, hmem⟩ := Graph.exists_error_mem_of_errorsOf env hplaced herror
    exact ⟨errors, hpreview, _, hmem, rfl, rfl⟩

/-- Of two nodes that read each other one is deleted: the other one no longer lies on a cycle, but
its input is open. -/
theorem delete_leaves_no_reference_loop :
    ∃ e, (⟨Sample.types, Sample.loop⟩ : Canvas).delete ⟨1⟩ = .ok e ∧
      ∃ errors, (⟨2⟩, .error errors) ∈ (e.canvas.compile .customary).value ∧
        ∃ error ∈ errors, error.node = ⟨2⟩ ∧
          error.problem.message = "Input '" ++ "X" ++ "' not connected" := by
  obtain ⟨e, hdelete, -, -, -, -, -, hopen⟩ :=
    delete_leaves_no_reference ⟨Sample.types, Sample.loop⟩ .customary ⟨1⟩ (by decide_cbv)
  have htyped : Sample.loop.Typed Sample.types ⟨2⟩ (Sample.node 2 "Negate")
      (((NodeType.new ⟨"Test", "Negate"⟩).withInput "X").withOverload
        ⟨[.scalar, .scalar], ["float #node_result = -#inputX;"]⟩) :=
    ⟨by decide_cbv, by decide_cbv⟩
  exact ⟨e, hdelete, hopen ⟨2⟩ _ _ (by decide) htyped "X" (by decide_cbv) (Sample.joint 1 2 "X")
    (by decide_cbv) rfl rfl⟩

end ShaderNodes
