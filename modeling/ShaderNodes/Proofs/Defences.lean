import Mathlib
import ShaderNodes.Proofs.Arena
import ShaderNodes.Proofs.Messages
import ShaderNodes.Proofs.Termination
import ShaderNodes.Proofs.Upstream

/-!
# Branches that are never taken

Compiling a graph is written with care: a node without a slot is skipped, a cycle that does not
start on the path would be read from the outermost node on, and there are errors for a source
without an outcome and for a node without a result. None of this ever happens, however malformed the
graph is. Whatever a turn looks at has its slot, so that a pass over the arena never uses an index
that is out of range; a cycle is recorded only at a node of the path, and a node is compiled only
when all its sources can be seen.

* `Walk.InRange`: a node has its slot, at an index below their number;
* `Stage.inRange_of_touches`, `Placement.inRange_of_touches`: so does all that a turn touches;
* `compile_defences_unreachable`: what is never missing.
-/

namespace ShaderNodes

open Relation

/-! ## Slots by their index -/

namespace Walk

/-- The index of a node is that of a slot, and the slot is that of the node. -/
def InRange (w : Walk) (n : NodeId) : Prop :=
  w.index n < w.slots.size ∧
    ∃ s, w.slots.entries[w.index n]? = some ⟨n, s⟩ ∧ w.state? n = some s

theorem inRange_of_mem_keys {w : Walk} {n : NodeId} (h : n ∈ w.slots.keys) : w.InRange n := by
  obtain ⟨s, hs⟩ := mem_keys_iff_state?.1 h
  have hslot := getElem?_entries hs
  exact ⟨(List.getElem?_eq_some_iff.1 hslot).1, s, hslot, hs⟩

theorem InRange.mem_keys {w : Walk} {n : NodeId} (h : w.InRange n) : n ∈ w.slots.keys := by
  obtain ⟨-, s, -, hs⟩ := h
  exact mem_keys_iff_state?.2 ⟨s, hs⟩

end Walk

theorem Position.Tracked.inRange {types : Catalogue} {g : Graph} {p : Position}
    (h : p.Tracked types g) {n : NodeId} (hn : n ∈ g.nodes.keys ∨ ∃ m, g.Feeds n m) :
    p.walk.InRange n := by
  apply Walk.inRange_of_mem_keys
  rw [h.keys]
  exact Walk.mem_keys_start.2 hn

/-! ## What a turn of the walk touches -/

/-- The nodes whose slots, outcomes or numbers the next turn of the walk may look up or change. -/
inductive Stage.Touches (s : Stage) : NodeId → Prop
  | asked {n : NodeId} (h : s.asks? = some n) : Touches s n
  | path {n : NodeId} (h : n ∈ s.walk.path) : Touches s n
  | compiled {frame : Frame} (h : s.compiles? = some frame) : Touches s frame.node.id
  | source {frame : Frame} (h : s.compiles? = some frame) {j : Joint} (hj : j ∈ frame.joints) :
    Touches s j.source.node

namespace Stage

variable {types : Catalogue} {g : Graph}

/-- A node that is asked for has its turn as the walk takes steps. -/
theorem exists_asks {s : Stage} (hroots : ∀ id ∈ s.roots, id ∈ g.nodes.keys) {n : NodeId}
    (h : s.asks? = some n) : ∃ rest, Asks g s.frames n rest := by
  obtain ⟨⟨frames, w⟩, roots⟩ := s
  cases frames with
  | nil =>
    obtain ⟨later, rfl⟩ := List.head?_eq_some_iff.1 h
    exact ⟨[], .root (hroots n List.mem_cons_self)⟩
  | cons frame rest =>
    obtain ⟨pending, hpending⟩ := List.head?_eq_some_iff.1 h
    exact ⟨_, .pending hpending rest⟩

/-- A frame that is compiled is the innermost one and has nothing pending. -/
theorem fits_of_compiles? {s : Stage} (hs : s.Reached types g) {frame : Frame}
    (h : s.compiles? = some frame) :
    frame.Fits types g ∧ ∀ m, g.Feeds m frame.node.id → (s.walk.outcome? m).isSome := by
  obtain ⟨hpending, rest, hframes, -⟩ := of_compiles? types g h
  obtain ⟨⟨frames, w⟩, roots⟩ := s
  obtain rfl : frames = frame :: rest := hframes
  have htracked := hs.position.tracked
  exact ⟨htracked.frames frame List.mem_cons_self, fun m => htracked.isSome_of_feeds hpending⟩

theorem feeds_of_mem_joints {frame : Frame} (h : frame.Fits types g) {j : Joint}
    (hj : j ∈ frame.joints) : g.Feeds j.source.node frame.node.id := by
  rw [h.joints] at hj
  obtain ⟨hmem, hdest⟩ := Graph.mem_jointsInto.1 hj
  exact ⟨j, hmem, rfl, hdest⟩

theorem inRange_of_touches {s : Stage} (hs : s.Reached types g) {n : NodeId} (h : s.Touches n) :
    s.walk.InRange n := by
  have htracked := hs.position.tracked
  cases h with
  | asked hask =>
    obtain ⟨rest, hasks⟩ := exists_asks hs.roots hask
    exact htracked.inRange (hasks.mem_keys_or_feeds htracked.frames htracked.stacked)
  | path hpath => exact Walk.inRange_of_mem_keys (htracked.mem_keys_of_mem_path hpath)
  | compiled hcompile =>
    have hfits := (fits_of_compiles? hs hcompile).1
    exact htracked.inRange (Or.inl (Roster.mem_keys_iff.2 ⟨_, hfits.typed.1⟩))
  | source hcompile hj =>
    have hfits := (fits_of_compiles? hs hcompile).1
    exact htracked.inRange (Or.inr ⟨_, feeds_of_mem_joints hfits hj⟩)

/-- A turn that asks for an active node records the cycle that goes from it along the path. -/
theorem recordCycle_of_asks? {k : Nat} {n : NodeId} {cycles : List Diagnostic}
    (hask : (stageAt types g k).asks? = some n)
    (hactive : (stageAt types g k).walk.state? n = some (.active cycles)) :
    (stageAt types g (k + 1)).walk = (stageAt types g k).walk.recordCycle n cycles ∧
      (stageAt types g k).walk.index n ∈ (stageAt types g k).walk.arena.stack ∧
      ∃ outer inner, (stageAt types g k).walk.path.reverse = outer ++ n :: inner ∧ n ∉ outer ∧
        (stageAt types g k).walk.cycleAt n = n :: inner ++ [n] := by
  obtain ⟨t, hnext, hwalk⟩ := next?_of_asks? types g hask
  have hmem := ((tracked_stageAt types g k).active n).2 ⟨cycles, hactive⟩
  refine ⟨?_, List.mem_map_of_mem (List.mem_reverse.2 hmem), Walk.exists_cycleAt_eq hmem⟩
  rw [stageAt_succ, turn_eq hnext, hwalk]
  unfold Walk.enter
  rw [hactive]

end Stage

/-! ## What a turn of the placing touches -/

/-- The nodes whose slots or outcomes the placing of fragments may look up. -/
inductive Placement.Touches (w : Walk) (s : Placement) : NodeId → Prop
  | placed {n : NodeId} (h : n ∈ s.placed) : Touches w s n
  | stop {stop : Walk.Stop} (h : stop ∈ s.stops) : Touches w s stop.node
  | pending {stop : Walk.Stop} (h : stop ∈ s.stops) {n : NodeId} (hn : n ∈ stop.pending w) :
    Touches w s n

namespace Placement

variable {types : Catalogue} {g : Graph} {n m : NodeId} {f : Fragment}

/-- Every node that has been met has a slot. -/
theorem inRange_of_mem_seen (h : (walk types g).fragment? n = some f) {k : Nat}
    (hm : m ∈ (placementAt (walk types g) n k).seen) : (walk types g).InRange m := by
  have hkeys : ∀ m ∈ (placementAt (walk types g) n k).seen, m ∈ (walk types g).slots.keys := by
    refine turns_induction (P := fun s : Placement => ∀ m ∈ s.seen, m ∈ (walk types g).slots.keys)
      (fun s t hs hturn => ?_) (fun m hm => ?_) k
    · cases turn_of_next? hturn with
      | drop | place | skip => exact hs
      | push _ _ hd => exact List.forall_mem_cons.2 ⟨hd.1, hs⟩
    · rw [List.mem_singleton.1 hm]
      exact Walk.mem_keys_of_fragment? h
  exact Walk.inRange_of_mem_keys (hkeys m hm)

theorem inRange_of_touches (h : (walk types g).fragment? n = some f) {k : Nat}
    (htouch : (placementAt (walk types g) n k).Touches (walk types g) m) :
    (walk types g).InRange m := by
  have hplacing := placing_placementAt h k
  cases htouch with
  | placed hplaced =>
    exact inRange_of_mem_seen h (hplacing.mem_seen m (List.mem_append_right _ hplaced))
  | stop hstop =>
    refine inRange_of_mem_seen h (hplacing.mem_seen _ (List.mem_append_left _ ?_))
    exact List.mem_map_of_mem hstop
  | pending hstop hpending =>
    have hfront := Walk.Stop.hasInFront_of_mem_pending hpending
    exact Walk.inRange_of_mem_keys (Walk.mem_keys_of_hasInFront hfront)

theorem inRange_of_mem_order (h : (walk types g).fragment? n = some f)
    (hm : m ∈ (walk types g).order n) : (walk types g).InRange m := by
  obtain ⟨f', hf'⟩ := (Walk.isOrder_order h).exists_fragment h hm
  exact Walk.inRange_of_mem_keys (Walk.mem_keys_of_fragment? hf')

end Placement

/-! ## Errors that never come up -/

/-- The problem says that a source has no outcome or that a node has no result. -/
def Problem.Defensive (p : Problem) : Prop :=
  (∃ input, p.message = "Node for input '" ++ input ++ "' not found") ∨
    p.message = "Output 'All' not found"

theorem Problem.defensive_iff {p : Problem} :
    p.Defensive ↔ (∃ input, p = .sourceNotFound input) ∨ p = .resultNotFound :=
  or_congr (exists_congr fun _ => message_eq_sourceNotFound_iff) message_eq_resultNotFound_iff

namespace Fragment

theorem not_defensive_of_resolveInput {node : NodeId} {joints : List Joint}
    {lookup : NodeId → Option Outcome} (hseen : ∀ j ∈ joints, (lookup j.source.node).isSome)
    {input : String} {d : Diagnostic}
    (h : d ∈ Checked.errors (resolveInput node joints lookup input)) : ¬ d.problem.Defensive := by
  rw [Problem.defensive_iff]
  unfold resolveInput at h
  split at h
  · rw [List.mem_singleton.1 h]
    simp
  · next j hj =>
    split at h
    · split at h
      · cases h
      · rw [List.mem_singleton.1 h]
        simp
    · cases h
    · next hnone =>
      have hsome := hseen j (List.mem_of_find?_eq_some hj)
      rw [hnone] at hsome
      cases hsome

theorem eq_of_mem_chooseOverload {node : NodeId} {type : NodeType}
    {inputs : List (String × Variable)} {d : Diagnostic}
    (h : d ∈ Checked.errors (chooseOverload node type inputs)) : d = ⟨node, .noOverload⟩ := by
  unfold chooseOverload at h
  split at h
  · cases h
  · exact List.mem_singleton.1 h

theorem problem_of_resolveParam {node : Node} {param : Param} {d : Diagnostic}
    (h : resolveParam node param = .error d) :
    d.problem = .paramNotSet param.name ∨
      ∃ found, d.problem = .paramMistyped param.name param.type found := by
  unfold resolveParam at h
  split at h
  · cases h
    exact Or.inl rfl
  · split at h
    · cases h
    · cases h
      exact Or.inr ⟨_, rfl⟩

theorem not_defensive_of_compile {node : Node} {type : NodeType} {joints : List Joint}
    {dependencies : List NodeId} {lookup : NodeId → Option Outcome}
    (hseen : ∀ j ∈ joints, (lookup j.source.node).isSome) {d : Diagnostic}
    (h : d ∈ Checked.errors (compile node type joints dependencies lookup)) :
    ¬ d.problem.Defensive := by
  rcases mem_errors_compile_cases h with ⟨input, -, hd⟩ | ⟨inputs, hd⟩ | ⟨param, -, hd⟩
  · exact not_defensive_of_resolveInput hseen hd
  · rw [Problem.defensive_iff, eq_of_mem_chooseOverload hd]
    simp
  · rw [Problem.defensive_iff]
    rcases problem_of_resolveParam hd with hunset | ⟨found, hmistyped⟩
    · simp [hunset]
    · simp [hmistyped]

end Fragment

theorem Walk.not_defensive {types : Catalogue} {g : Graph} {d : Diagnostic}
    (h : d ∈ (walk types g).errors) : ¬ d.problem.Defensive := by
  rw [errors_eq] at h
  obtain ⟨n, -, hd⟩ := List.mem_flatMap.1 h
  rcases mem_errorsOf_cases hd with ⟨path, rfl⟩ | ⟨problem, hreject, rfl⟩ | ⟨node, type, htyped, hd⟩
  · rw [Problem.defensive_iff]
    simp
  · rw [Problem.defensive_iff]
    cases hreject <;> simp
  · refine Fragment.not_defensive_of_compile (fun j hj => ?_) hd
    obtain ⟨hmem, hdest⟩ := Graph.mem_jointsInto.1 hj
    rw [htyped.id_eq] at hdest
    exact isSome_of_feeds_known ⟨node, type, htyped⟩ ⟨j, hmem, rfl, hdest⟩

/-- The rows of a walk start with the placed nodes. -/
theorem Walk.getElem?_arena (types : Catalogue) {g : Graph} {i : Nat} {n : NodeId}
    (h : g.nodes.keys[i]? = some n) :
    (walk types g).arena.ids[i]? = some n ∧
      (walk types g).arena.results[i]? = some ((walk types g).outcome? n) := by
  have htracked := (reached_walk types g).tracked
  have hn : n ∈ (walk types g).slots.keys :=
    (htracked.inRange (Or.inl (List.mem_of_getElem? h))).mem_keys
  obtain ⟨s, hs⟩ := mem_keys_iff_state?.1 hn
  have hindex : (walk types g).index n = i := by
    have hsize : i < g.nodes.size :=
      (List.getElem?_eq_some_iff.1 h).1.trans_eq (List.length_map _)
    have hrange : (g.nodes.keys.map (start g).index)[i]? = some i := by
      rw [map_index_start, List.getElem?_range hsize]
    rw [List.getElem?_map, h] at hrange
    rw [index_congr htracked.keys]
    exact Option.some.inj hrange
  have hids := getElem?_ids hn
  have hresults := getElem?_results hs
  rw [hindex] at hids hresults
  exact ⟨hids, by rw [hresults, outcome?_eq hs]⟩

/-- **Branches that are never taken.** Whatever the graph is, every turn of the walk finds a slot at
the index of each node that it touches, among the slots that there were from the start. A pass over
the arena, which would stop at an index out of range, never does: after any number of turns its rows
hold what the slots of the walk hold. A cycle is recorded only at a node of the path, whose index is
on the stack. When a node is compiled, every source of a joint into it can be seen, so no input is
reported as lacking its source. In the end every placed node has an outcome, at its index. All that
the placing of fragments touches has its slot, a node that has succeeded has a result, and no failed
preview shows the errors that are kept for other cases. -/
theorem compile_defences_unreachable (types : Catalogue) (env : Envelope) (g : Graph) :
    (∃ k, (stageAt types g k).next? types g = none ∧ (stageAt types g k).walk = walk types g) ∧
    (∀ k, (stageAt types g k).walk.slots.keys = g.nodes.keys ++ g.unplacedSources ∧
      ∀ n, (stageAt types g k).Touches n → (stageAt types g k).walk.InRange n ∧
        (stageAt types g k).walk.arena.index? n = some ((stageAt types g k).walk.index n)) ∧
    (∀ k, passAt types g k = some (stageAt types g k).pass) ∧
    (∀ k n cycles, (stageAt types g k).asks? = some n →
      (stageAt types g k).walk.state? n = some (.active cycles) →
      (stageAt types g (k + 1)).walk = (stageAt types g k).walk.recordCycle n cycles ∧
      (stageAt types g k).walk.index n ∈ (stageAt types g k).walk.arena.stack ∧
      ∃ outer inner, (stageAt types g k).walk.path.reverse = outer ++ n :: inner ∧ n ∉ outer ∧
        (stageAt types g k).walk.cycleAt n = n :: inner ++ [n]) ∧
    (∀ k frame, (stageAt types g k).compiles? = some frame →
      (stageAt types g (k + 1)).walk = (stageAt types g k).walk.leave frame ∧
      frame.joints = g.jointsInto frame.node.id ∧
      (∀ j ∈ frame.joints, ((stageAt types g k).walk.outcome? j.source.node).isSome) ∧
      ∀ input, ∀ d ∈ Checked.errors (Fragment.resolveInput frame.node.id frame.joints
        (stageAt types g k).walk.outcome? input),
        ∀ x, d.problem.message ≠ "Node for input '" ++ x ++ "' not found") ∧
    (∀ n ∈ g.nodes.keys, (walk types g).InRange n ∧
      ∃ outcome, (walk types g).outcome? n = some outcome) ∧
    (∀ (i : Nat) (n : NodeId), g.nodes.keys[i]? = some n →
      (walk types g).arena.ids[i]? = some n ∧
      (walk types g).arena.results[i]? = some ((walk types g).outcome? n)) ∧
    (∀ n f, (walk types g).fragment? n = some f → (∃ result, f.output? .all = some result) ∧
      (∀ k m, (placementAt (walk types g) n k).Touches (walk types g) m →
        (walk types g).InRange m) ∧
      ∀ m ∈ (walk types g).order n, (walk types g).InRange m) ∧
    ∀ n errors, (n, .error errors) ∈ (g.compile types env).value → ∀ d ∈ errors,
      d.problem.message ≠ "Output 'All' not found" ∧
      ∀ x, d.problem.message ≠ "Node for input '" ++ x ++ "' not found" := by
  refine ⟨?_, fun k => ⟨?_, fun n htouch => ?_⟩, passAt_eq types g,
    fun k n cycles => Stage.recordCycle_of_asks?, ?_, ?_, fun i n => Walk.getElem?_arena types, ?_,
    ?_⟩
  · obtain ⟨k, -, hhalt⟩ := Stage.exists_halt types g
    exact ⟨k, hhalt, Stage.walk_eq hhalt⟩
  · rw [(Stage.tracked_stageAt types g k).keys, Walk.keys_start]
  · have hslot := Stage.inRange_of_touches (Stage.reached_stageAt types g k) htouch
    exact ⟨hslot, Walk.index?_arena hslot.mem_keys⟩
  · intro k frame hcompile
    obtain ⟨hfits, hseen⟩ := Stage.fits_of_compiles? (Stage.reached_stageAt types g k) hcompile
    have hsources : ∀ j ∈ frame.joints,
        ((stageAt types g k).walk.outcome? j.source.node).isSome :=
      fun j hj => hseen _ (Stage.feeds_of_mem_joints hfits hj)
    obtain ⟨-, rest, -, hnext⟩ := Stage.of_compiles? types g hcompile
    refine ⟨by rw [Stage.stageAt_succ, turn_eq hnext], hfits.joints, hsources, ?_⟩
    intro input d hd x hmessage
    exact Fragment.not_defensive_of_resolveInput hsources hd (Or.inl ⟨x, hmessage⟩)
  · intro n hn
    obtain ⟨outcome, hdone⟩ := Walk.exists_done types hn
    have hslot := (Walk.reached_walk types g).tracked.inRange (Or.inl hn)
    exact ⟨hslot, outcome, Walk.outcome?_of_done hdone⟩
  · intro n f hf
    exact ⟨Walk.exists_result hf, fun k m => Placement.inRange_of_touches hf,
      fun m => Placement.inRange_of_mem_order hf⟩
  · intro n errors hn d hd
    obtain ⟨rfl, -⟩ := Graph.error_mem_compile hn
    have hnot := Walk.not_defensive hd
    exact ⟨fun hmessage => hnot (Or.inr hmessage), fun x hmessage => hnot (Or.inl ⟨x, hmessage⟩)⟩

/-- The walk comes to the first node of a loop again in its third turn, and compiles the second one
in its fourth. -/
theorem compile_defences_unreachable_loop :
    (∃ cycles, (stageAt Sample.types Sample.loop 2).asks? = some ⟨1⟩ ∧
      (stageAt Sample.types Sample.loop 2).walk.state? ⟨1⟩ = some (.active cycles) ∧
      (stageAt Sample.types Sample.loop 3).walk =
        (stageAt Sample.types Sample.loop 2).walk.recordCycle ⟨1⟩ cycles ∧
      (stageAt Sample.types Sample.loop 2).walk.index ⟨1⟩ ∈
        (stageAt Sample.types Sample.loop 2).walk.arena.stack) ∧
    (∃ frame, (stageAt Sample.types Sample.loop 3).compiles? = some frame ∧
      frame.node.id = ⟨2⟩ ∧
      (stageAt Sample.types Sample.loop 4).walk =
        (stageAt Sample.types Sample.loop 3).walk.leave frame ∧
      (∀ j ∈ Sample.loop.jointsInto ⟨2⟩,
        ((stageAt Sample.types Sample.loop 3).walk.outcome? j.source.node).isSome)) ∧
    passAt Sample.types Sample.loop 4 = some (stageAt Sample.types Sample.loop 4).pass := by
  obtain ⟨-, -, hpass, hactive, hcompile, -⟩ :=
    compile_defences_unreachable Sample.types .customary Sample.loop
  refine ⟨?_, ?_, hpass 4⟩
  · have hask : (stageAt Sample.types Sample.loop 2).asks? = some ⟨1⟩ := by decide_cbv
    have hpath : (⟨1⟩ : NodeId) ∈ (stageAt Sample.types Sample.loop 2).walk.path := by decide_cbv
    obtain ⟨cycles, hstate⟩ := ((Stage.tracked_stageAt Sample.types Sample.loop 2).active _).1 hpath
    obtain ⟨hwalk, hstack, -⟩ := hactive 2 ⟨1⟩ cycles hask hstate
    exact ⟨cycles, hask, hstate, hwalk, hstack⟩
  · have hnode : (stageAt Sample.types Sample.loop 3).compiles?.map (fun frame => frame.node.id) =
        some ⟨2⟩ := by decide_cbv
    obtain ⟨frame, hframe, hid⟩ := Option.map_eq_some_iff.1 hnode
    obtain ⟨hwalk, hjoints, hseen, -⟩ := hcompile 3 frame hframe
    rw [hid] at hjoints
    rw [hjoints] at hseen
    exact ⟨frame, hframe, hid, hwalk, hseen⟩

end ShaderNodes
