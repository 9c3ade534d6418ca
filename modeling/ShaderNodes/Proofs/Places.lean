import Mathlib
import ShaderNodes.Proofs.Turns
import ShaderNodes.Proofs.Upstream

/-!
# Places do not matter

Nothing that is compiled looks at where a node is placed. Two graphs that differ only in the places
of their nodes are walked in the same way, step by step: the frames of the two walks differ only in
the places of their nodes, and compiling a node does not tell such frames apart.

* `Graph.DiffersInPlaces`: graphs with the same nodes at other places;
* `Walk.enter_of_places`, `Walk.run_of_places`: the walk takes the same steps;
* `Graph.compile_of_places`: both graphs compile to the same, whatever is reported included.
-/

namespace ShaderNodes

/-- The graphs differ at most in the places of their nodes. -/
structure Graph.DiffersInPlaces (g g' : Graph) : Prop where
  nodes : g.nodes.entries.map Node.unplaced = g'.nodes.entries.map Node.unplaced
  joints : g.joints = g'.joints

/-- The frame, with a node that has no place. -/
def Frame.unplaced (frame : Frame) : Frame := { frame with node := frame.node.unplaced }

namespace Graph.DiffersInPlaces

variable {g g' : Graph}

theorem keys_eq (h : g.DiffersInPlaces g') : g.nodes.keys = g'.nodes.keys := by
  have hkeys : ∀ r : Roster Node, r.keys = (r.entries.map Node.unplaced).map Node.id := by
    intro r
    rw [List.map_map]
    rfl
  rw [hkeys, hkeys, h.nodes]

theorem jointsInto_eq (h : g.DiffersInPlaces g') (id : NodeId) :
    g.jointsInto id = g'.jointsInto id := by
  unfold jointsInto
  rw [h.joints]

theorem get?_unplaced (h : g.DiffersInPlaces g') (id : NodeId) :
    (g.nodes.get? id).map Node.unplaced = (g'.nodes.get? id).map Node.unplaced := by
  have hfind : ∀ r : Roster Node, (r.get? id).map Node.unplaced =
      (r.entries.map Node.unplaced).find? fun n => n.id = id := by
    intro r
    rw [List.find?_map]
    rfl
  rw [hfind, hfind, h.nodes]

end Graph.DiffersInPlaces

namespace Walk

variable (types : Catalogue) {g g' : Graph}

/-- Both walks do the same on entering a node, and go on with frames that differ in places. -/
theorem enter_of_places (h : g.DiffersInPlaces g') (w : Walk) (id : NodeId) :
    (w.enter types g id).1 = (w.enter types g' id).1 ∧
      (w.enter types g id).2.map Frame.unplaced = (w.enter types g' id).2.map Frame.unplaced := by
  have hnode := h.get?_unplaced id
  unfold enter
  cases w.state? id with
  | none => exact ⟨rfl, rfl⟩
  | some state =>
    cases state with
    | done _ => exact ⟨rfl, rfl⟩
    | active _ => exact ⟨rfl, rfl⟩
    | unvisited =>
      dsimp only
      cases hget : g.nodes.get? id with
      | none =>
        rw [hget] at hnode
        rw [Option.map_eq_none_iff.1 hnode.symm]
        exact ⟨rfl, rfl⟩
      | some node =>
        rw [hget] at hnode
        obtain ⟨node', hget', hsame⟩ := Option.map_eq_some_iff.1 hnode.symm
        have htype : node'.type = node.type := congrArg (fun n => n.type) hsame
        rw [hget', ← h.jointsInto_eq id]
        dsimp only
        rw [htype]
        cases types.get? node.type with
        | none => exact ⟨rfl, rfl⟩
        | some type =>
          refine ⟨rfl, ?_⟩
          simp only [Option.map_some, Frame.unplaced, hsame]

theorem leave_of_places {frame frame' : Frame} (h : frame.unplaced = frame'.unplaced) (w : Walk) :
    w.leave frame = w.leave frame' := by
  have hleave : ∀ frame : Frame, w.leave frame = w.leave frame.unplaced := fun _ => rfl
  rw [hleave, hleave frame', h]

/-- Running frames takes them one at a time: the first one is left when it has nothing pending, and
otherwise its next node is entered. -/
theorem run_induction {P : List Frame → Walk → Prop} (hnil : ∀ w, P [] w)
    (hleave : ∀ frame rest w, frame.pending = [] → P rest (w.leave frame) → P (frame :: rest) w)
    (henter : ∀ frame rest w d pending, frame.pending = d :: pending →
      P ((w.enter types g d).2.toList ++ { frame with pending } :: rest) (w.enter types g d).1 →
      P (frame :: rest) w)
    (frames : List Frame) (w : Walk) : P frames w := by
  induction frames, w using run.induct types g with
  | case1 w => exact hnil w
  | case2 node type joints dependencies rest w ih => exact hleave _ rest w rfl ih
  | case3 node type joints dependencies d pending rest w w' heq _ ih =>
    apply henter _ rest w d pending rfl
    rw [heq]
    exact ih
  | case4 node type joints dependencies d pending rest w w' child heq _ ih =>
    apply henter _ rest w d pending rfl
    rw [heq]
    exact ih

theorem run_of_places (h : g.DiffersInPlaces g') (frames frames' : List Frame) (w : Walk)
    (hframes : frames'.map Frame.unplaced = frames.map Frame.unplaced) :
    run types g frames w = run types g' frames' w := by
  induction frames, w using run_induction types (g := g) generalizing frames' with
  | hnil w => rw [List.map_eq_nil_iff.1 hframes, run, run]
  | hleave frame rest w hpending ih =>
    obtain ⟨frame', rest', rfl, hframe, hrest⟩ := List.map_eq_cons_iff.1 hframes
    have hpending' : frame'.pending = frame.pending := congrArg (fun f => f.pending) hframe
    rw [Stage.run_leave frame rest w hpending,
      Stage.run_leave frame' rest' w (hpending'.trans hpending), leave_of_places hframe w]
    exact ih rest' hrest
  | henter frame rest w d pending hpending ih =>
    obtain ⟨frame', rest', rfl, hframe, hrest⟩ := List.map_eq_cons_iff.1 hframes
    have hpending' : frame'.pending = frame.pending := congrArg (fun f => f.pending) hframe
    have hlater : ({ frame' with pending } : Frame).unplaced =
        ({ frame with pending } : Frame).unplaced :=
      congrArg (fun f => ({ f with pending } : Frame)) hframe
    obtain ⟨hwalk, hchild⟩ := enter_of_places types h w d
    rw [Stage.run_enter frame rest w hpending,
      Stage.run_enter frame' rest' w (hpending'.trans hpending), ← hwalk]
    apply ih
    rw [List.map_append, List.map_append, ← Option.toList_map, ← Option.toList_map, hchild,
      List.map_cons, List.map_cons, hlater, hrest]

theorem visit_of_places (h : g.DiffersInPlaces g') (w : Walk) (id : NodeId) :
    w.visit types g id = w.visit types g' id := by
  obtain ⟨hwalk, hchild⟩ := enter_of_places types h w id
  rw [Stage.visit_eq_run, Stage.visit_eq_run, ← hwalk]
  apply run_of_places types h
  rw [← Option.toList_map, ← Option.toList_map, hchild]

theorem walk_of_places (h : g.DiffersInPlaces g') : walk types g = walk types g' := by
  have hstart : start g = start g' := by
    unfold start
    rw [h.keys_eq, h.joints]
  have hvisit : visit types g = visit types g' := by
    funext w id
    exact visit_of_places types h w id
  unfold ShaderNodes.walk
  rw [hstart, hvisit, h.keys_eq]

end Walk

/-- Graphs that differ only in the places of their nodes compile to the same previews, and the same
is reported on the way. -/
theorem Graph.compile_of_places (types : Catalogue) (env : Envelope) {g g' : Graph}
    (h : g.DiffersInPlaces g') : g.compile types env = g'.compile types env := by
  have hsize : ∀ g : Graph, g.nodes.size = g.nodes.keys.length := by
    intro g
    exact (List.length_map key).symm
  unfold compile
  rw [hsize, hsize, Walk.walk_of_places types h, h.keys_eq, h.joints]

end ShaderNodes
