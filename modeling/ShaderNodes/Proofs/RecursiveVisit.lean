import Mathlib
import ShaderNodes.Proofs.Turns

/-!
# The walk as a recursion

The walk keeps the frames of the nodes that it is inside of on a stack of its own, with what is
still to be visited in front of each. Told as a recursion there are no frames: a node is visited by
visiting the nodes in front of it one after the other and compiling it then. Both leave the same
slots and report the same events in the same order. The frames below the innermost one stand for the
calls that have not returned: running a frame to its end is to visit what it has pending, and to
leave its node.

* `Walk.explore`: the recursion, and `Walk.explore_of_mem`, `Walk.explore_of_visited`,
  `Walk.explore_of_rejected`, `Walk.explore_of_typed`: what it does with a node;
* `Walk.Consistent`: the path lists the active nodes;
* `Walk.run_frame`: running a frame is what the call does that it stands for;
* `visit_eq_explore`: the theorem.
-/

namespace ShaderNodes

theorem Graph.typed_or_rejected (types : Catalogue) (g : Graph) (id : NodeId) :
    (∃ node type, g.Typed types id node type) ∨ ∃ problem, Rejected types g id problem := by
  cases hnode : g.nodes.get? id with
  | none => exact Or.inr ⟨_, .missing hnode⟩
  | some node =>
    cases htype : types.get? node.type with
    | none => exact Or.inr ⟨_, .untyped hnode htype⟩
    | some type => exact Or.inl ⟨node, type, hnode, htype⟩

namespace Walk

/-! ## The recursion -/

/-- The cycles that are kept with an active node. -/
def cyclesAgainst (w : Walk) (id : NodeId) : List Diagnostic :=
  match w.state? id with
  | some (.active cycles) => cycles
  | _ => []

theorem unvisited_descend_lt {w : Walk} {id : NodeId} (h : w.state? id = some .unvisited) :
    (w.descend id).unvisited < w.unvisited :=
  unvisited_set_lt (w.emit _) id rfl h

mutual

/-- Visits a node. The walk that comes out has no more unvisited slots than before, which is why the
recursion ends. -/
def exploreWithin (types : Catalogue) (g : Graph) (w : Walk) (id : NodeId) :
    { w' : Walk // w'.unvisited ≤ w.unvisited } :=
  if id ∈ w.path then
    ⟨w.recordCycle id (w.cyclesAgainst id), unvisited_set_le (w.emit _) id rfl⟩
  else
    match hstate : w.state? id with
    | some .unvisited =>
      match g.nodes.get? id with
      | none => ⟨w.reject id .nodeNotFound, unvisited_set_le (w.emit _) id rfl⟩
      | some node =>
        match types.get? node.type with
        | none => ⟨w.reject id (.typeNotFound node.type), unvisited_set_le (w.emit _) id rfl⟩
        | some type =>
          have hless := unvisited_descend_lt hstate
          let dependencies := g.dependencies type id
          let inside := exploreEachWithin types g (w.descend id) dependencies
          let outcome :=
            Fragment.compile node type (g.jointsInto id) dependencies inside.1.outcome?
          ⟨inside.1.settle id (outcome.blockedBy (inside.1.cyclesAgainst id)),
            (unvisited_set_le { inside.1 with path := inside.1.path.tail } id rfl).trans
              (inside.2.trans hless.le)⟩
    | _ => ⟨w, le_rfl⟩
termination_by (w.unvisited, 0)

/-- Visits nodes one after the other. -/
def exploreEachWithin (types : Catalogue) (g : Graph) (w : Walk) :
    List NodeId → { w' : Walk // w'.unvisited ≤ w.unvisited }
  | [] => ⟨w, le_rfl⟩
  | id :: ids =>
    match exploreWithin types g w id with
    | ⟨w', hfirst⟩ =>
      let others := exploreEachWithin types g w' ids
      ⟨others.1, others.2.trans hfirst⟩
termination_by ids => (w.unvisited, ids.length + 1)
decreasing_by
  · exact Prod.Lex.right _ (Nat.succ_pos _)
  · simp only [Prod.lex_def, List.length_cons]
    omega

end

/-- Visits a node: a node on the path closes a cycle; a node that has been visited is left alone;
any other node is entered, the nodes in front of it are visited, and then it is compiled. -/
def explore (types : Catalogue) (g : Graph) (w : Walk) (id : NodeId) : Walk :=
  (w.exploreWithin types g id).1

variable {types : Catalogue} {g : Graph} {w : Walk} {id : NodeId}

theorem unvisited_explore_le (types : Catalogue) (g : Graph) (w : Walk) (id : NodeId) :
    (w.explore types g id).unvisited ≤ w.unvisited :=
  (w.exploreWithin types g id).2

theorem exploreEachWithin_eq (types : Catalogue) (g : Graph) (w : Walk) (ids : List NodeId) :
    (w.exploreEachWithin types g ids).1 = ids.foldl (explore types g) w := by
  induction ids generalizing w with
  | nil => rw [exploreEachWithin, List.foldl_nil]
  | cons id ids ih =>
    rw [exploreEachWithin, List.foldl_cons]
    exact ih _

/-- Meeting a node of the path closes a cycle. -/
theorem explore_of_mem (h : id ∈ w.path) :
    w.explore types g id = w.recordCycle id (w.cyclesAgainst id) := by
  rw [explore, exploreWithin, if_pos h]

theorem explore_of_visited (h : id ∉ w.path) (hstate : w.state? id ≠ some .unvisited) :
    w.explore types g id = w := by
  rw [explore, exploreWithin, if_neg h]
  split
  · next hunvisited => exact absurd hunvisited hstate
  · rfl

theorem explore_of_rejected (h : id ∉ w.path) (hstate : w.state? id = some .unvisited)
    {problem : Problem} (hreject : Rejected types g id problem) :
    w.explore types g id = w.reject id problem := by
  rw [explore, exploreWithin, if_neg h]
  split
  · cases hreject with
    | missing hnode => simp only [hnode]
    | untyped hnode htype => simp only [hnode, htype]
  · next hother => exact absurd hstate hother

theorem explore_of_typed (h : id ∉ w.path) (hstate : w.state? id = some .unvisited) {node : Node}
    {type : NodeType} (htyped : g.Typed types id node type) {inside : Walk}
    (hinside : inside = (g.dependencies type id).foldl (explore types g) (w.descend id)) :
    w.explore types g id =
      inside.settle id ((Fragment.compile node type (g.jointsInto id) (g.dependencies type id)
        inside.outcome?).blockedBy (inside.cyclesAgainst id)) := by
  rw [explore, exploreWithin, if_neg h]
  split
  · simp only [htyped.1, htyped.2, exploreEachWithin_eq, hinside]
  · next hother => exact absurd hstate hother

/-! ## The path lists the active nodes -/

/-- The nodes of the path are the active ones. -/
def Consistent (w : Walk) : Prop := ∀ n, n ∈ w.path ↔ ∃ cycles, w.state? n = some (.active cycles)

namespace Consistent

theorem cyclesAgainst (h : w.Consistent) (hid : id ∈ w.path) :
    w.state? id = some (.active (w.cyclesAgainst id)) := by
  obtain ⟨cycles, hactive⟩ := (h id).1 hid
  rw [Walk.cyclesAgainst, hactive]

theorem not_mem_path (h : w.Consistent)
    (hstate : ∀ cycles, w.state? id ≠ some (.active cycles)) : id ∉ w.path :=
  fun hid => hstate _ (h.cyclesAgainst hid)

theorem recordCycle (h : w.Consistent) (hid : id ∈ w.path) (cycles : List Diagnostic) :
    (w.recordCycle id cycles).Consistent := by
  intro n
  change n ∈ w.path ↔ _
  rw [state?_recordCycle]
  split
  · next hn => exact iff_of_true (hn ▸ hid) ⟨_, rfl⟩
  · exact h n

theorem reject (h : w.Consistent) (hid : id ∉ w.path) (problem : Problem) :
    (w.reject id problem).Consistent := by
  intro n
  change n ∈ w.path ↔ _
  rw [state?_reject]
  split
  · next hn => exact iff_of_false (hn ▸ hid) (by simp)
  · exact h n

theorem descend (h : w.Consistent) (id : NodeId) : (w.descend id).Consistent := by
  intro n
  change n ∈ id :: w.path ↔ _
  rw [state?_descend, List.mem_cons]
  split
  · next hn => exact iff_of_true (Or.inl hn) ⟨_, rfl⟩
  · next hn => rw [h n, or_iff_right hn]

theorem settle (h : w.Consistent) {path : List NodeId} (hpath : w.path = id :: path)
    (hid : id ∉ path) (outcome : Outcome) : (w.settle id outcome).Consistent := by
  intro n
  change n ∈ w.path.tail ↔ _
  rw [state?_settle, hpath, List.tail_cons]
  split
  · next hn => exact iff_of_false (hn ▸ hid) (by simp)
  · next hn => rw [← h n, hpath, List.mem_cons, or_iff_right hn]

end Consistent

/-- The walk `w'` has come back to where `w` was. -/
structure Returned (w w' : Walk) : Prop where
  consistent : w'.Consistent
  path : w'.path = w.path

theorem returned_foldl {ids : List NodeId} (h : w.Consistent)
    (hvisit : ∀ w' : Walk, w'.unvisited ≤ w.unvisited → w'.Consistent →
      ∀ id, w'.Returned (w'.explore types g id)) :
    w.Returned (ids.foldl (explore types g) w) := by
  induction ids generalizing w with
  | nil => exact ⟨h, rfl⟩
  | cons id ids ih =>
    have hfirst := hvisit w le_rfl h id
    have hothers := ih hfirst.consistent fun w' hle =>
      hvisit w' (hle.trans (unvisited_explore_le types g w id))
    exact ⟨hothers.consistent, hothers.path.trans hfirst.path⟩

/-- Visiting a node comes back to where it started. -/
theorem returned_explore (h : w.Consistent) (id : NodeId) : w.Returned (w.explore types g id) := by
  induction hn : w.unvisited using Nat.strong_induction_on generalizing w id with
  | _ n ih =>
    by_cases hmem : id ∈ w.path
    · rw [explore_of_mem hmem]
      exact ⟨h.recordCycle hmem _, rfl⟩
    by_cases hstate : w.state? id = some .unvisited
    · rcases Graph.typed_or_rejected types g id with ⟨node, type, htyped⟩ | ⟨problem, hreject⟩
      · have hinside : (w.descend id).Returned
            ((g.dependencies type id).foldl (explore types g) (w.descend id)) := by
          refine returned_foldl (h.descend id) fun w' hle hw' d => ih _ ?_ hw' d rfl
          have hless := unvisited_descend_lt hstate
          omega
        rw [explore_of_typed hmem hstate htyped rfl]
        exact ⟨hinside.consistent.settle hinside.path hmem _, congrArg List.tail hinside.path⟩
      · rw [explore_of_rejected hmem hstate hreject]
        exact ⟨h.reject hmem problem, rfl⟩
    · rw [explore_of_visited hmem hstate]
      exact ⟨h, rfl⟩

theorem returned_exploreEach (h : w.Consistent) (ids : List NodeId) :
    w.Returned (ids.foldl (explore types g) w) :=
  returned_foldl h fun _ _ hw' id => returned_explore hw' id

/-! ## Frames and calls -/

/-- Entering a node visits it, or it opens the frame of a call. -/
theorem enter_cases (h : w.Consistent) (id : NodeId) :
    w.enter types g id = (w.explore types g id, none) ∨
      ∃ node type, g.Typed types id node type ∧ w.state? id = some .unvisited ∧
        w.enter types g id = (w.descend id, some (.opening g node type)) := by
  unfold enter
  split
  · next hstate =>
    rw [explore_of_visited (h.not_mem_path (by simp [hstate])) (by simp [hstate])]
    exact Or.inl rfl
  · next outcome hstate =>
    rw [explore_of_visited (h.not_mem_path (by simp [hstate])) (by simp [hstate])]
    exact Or.inl rfl
  · next cycles hstate =>
    have hmem := (h id).2 ⟨cycles, hstate⟩
    have hcycles := h.cyclesAgainst hmem
    rw [hstate] at hcycles
    rw [explore_of_mem hmem, ← SlotState.active.inj (Option.some.inj hcycles)]
    exact Or.inl rfl
  · next hstate =>
    have hmem : id ∉ w.path := h.not_mem_path (by simp [hstate])
    dsimp only
    rw [finish_of_unvisited hstate]
    split
    · next hnode =>
      rw [explore_of_rejected hmem hstate (.missing hnode)]
      exact Or.inl rfl
    · next node hnode =>
      split
      · next htype =>
        rw [finish_of_unvisited hstate, explore_of_rejected hmem hstate (.untyped hnode htype)]
        exact Or.inl rfl
      · next type htype =>
        obtain rfl : node.id = id := (Roster.mem_of_get? hnode).2
        exact Or.inr ⟨node, type, ⟨hnode, htype⟩, hstate, rfl⟩

/-- Leaving a node once the nodes in front of it have been visited completes the visit. -/
theorem leave_opening (h : w.Consistent) {node : Node} {type : NodeType}
    (htyped : g.Typed types id node type) (hstate : w.state? id = some .unvisited) :
    ((g.dependencies type id).foldl (explore types g) (w.descend id)).leave
      { Frame.opening g node type with pending := [] } = w.explore types g id := by
  obtain rfl := htyped.id_eq
  have hreturned : (w.descend node.id).Returned
      ((g.dependencies type node.id).foldl (explore types g) (w.descend node.id)) :=
    returned_exploreEach (h.descend node.id) _
  have hmem : node.id ∈
      ((g.dependencies type node.id).foldl (explore types g) (w.descend node.id)).path := by
    rw [hreturned.path]
    exact List.mem_cons_self
  rw [explore_of_typed (h.not_mem_path (by simp [hstate])) hstate htyped rfl]
  exact leave_eq (hreturned.consistent.cyclesAgainst hmem)

/-- Running a frame visits the nodes that it has pending and leaves its node, whatever lies
below. -/
theorem run_frame (h : w.Consistent) (frame : Frame) (rest : List Frame) :
    run types g (frame :: rest) w =
      run types g rest ((frame.pending.foldl (explore types g) w).leave
        { frame with pending := [] }) := by
  -- The outer induction takes care of the frames that are opened, the inner one of this frame.
  induction hn : w.unvisited using Nat.strong_induction_on generalizing w frame rest with
  | _ n ih =>
    have hle : w.unvisited ≤ n := hn.le
    clear hn
    obtain ⟨node, type, joints, dependencies, pending⟩ := frame
    induction pending generalizing w with
    | nil => exact Stage.run_leave _ rest w rfl
    | cons d pending ihpending =>
      have hreturned : w.Returned (w.explore types g d) := returned_explore h d
      have hvisited := unvisited_explore_le types g w d
      have hothers := ihpending hreturned.consistent (hvisited.trans hle)
      rw [Stage.run_enter _ rest w rfl, List.foldl_cons]
      rcases enter_cases h d with henter | ⟨inner, innerType, htyped, hstate, henter⟩
      · rw [henter]
        exact hothers
      · have hless := unvisited_descend_lt hstate
        obtain rfl := htyped.id_eq
        rw [henter, ← hothers, ← leave_opening h htyped hstate]
        exact ih _ (hless.trans_le hle) (h.descend _) (.opening g inner innerType) _ rfl

theorem visit_eq (h : w.Consistent) (id : NodeId) : w.visit types g id = w.explore types g id := by
  rw [Stage.visit_eq_run]
  rcases enter_cases h id with henter | ⟨node, type, htyped, hstate, henter⟩
  · rw [henter, Option.toList_none, run]
  · obtain rfl := htyped.id_eq
    rw [henter, Option.toList_some, run_frame (h.descend _), run]
    exact leave_opening h htyped hstate

/-- The walk is not inside of any node. -/
structure BetweenRoots (w : Walk) : Prop where
  path : w.path = []
  inactive : ∀ n cycles, w.state? n ≠ some (.active cycles)

namespace BetweenRoots

theorem consistent (h : w.BetweenRoots) : w.Consistent := by
  intro n
  refine iff_of_false ?_ fun ⟨cycles, hactive⟩ => h.inactive n cycles hactive
  rw [h.path]
  exact List.not_mem_nil

theorem of_consistent (h : w.Consistent) (hpath : w.path = []) : w.BetweenRoots := by
  refine ⟨hpath, fun n cycles hactive => ?_⟩
  have hmem := (h n).2 ⟨cycles, hactive⟩
  rw [hpath] at hmem
  exact List.not_mem_nil hmem

theorem start (g : Graph) : (start g).BetweenRoots := by
  refine ⟨rfl, fun n cycles hactive => ?_⟩
  cases state?_start hactive

theorem explore (h : w.BetweenRoots) (id : NodeId) : (w.explore types g id).BetweenRoots := by
  have hreturned : w.Returned (w.explore types g id) := returned_explore h.consistent id
  exact of_consistent hreturned.consistent (hreturned.path.trans h.path)

end BetweenRoots

theorem foldl_visit_eq (h : w.BetweenRoots) (ids : List NodeId) :
    ids.foldl (visit types g) w = ids.foldl (explore types g) w := by
  induction ids generalizing w with
  | nil => rfl
  | cons id ids ih =>
    rw [List.foldl_cons, List.foldl_cons, visit_eq h.consistent]
    exact ih (h.explore id)

end Walk

/-- **Visiting a node is a recursion.** Whatever the graph, and whatever the walk has found before,
a visit that starts outside of all nodes leaves the same slots and reports the same events as the
recursion does: a node on the path closes a cycle, a node that has been visited is left alone, and
any other node is put on the path, the nodes in front of it are visited in order, it is taken off
the path and compiled, with the cycles recorded against it first. Afterwards the walk is outside of
all nodes again, so the walk through the graph is the recursion for one placed node after the
other. -/
theorem visit_eq_explore (types : Catalogue) (g : Graph) :
    (Walk.start g).BetweenRoots ∧
    (∀ w : Walk, w.BetweenRoots → ∀ root,
      w.visit types g root = w.explore types g root ∧ (w.visit types g root).BetweenRoots) ∧
    walk types g = g.nodes.keys.foldl (Walk.explore types g) (.start g) := by
  refine ⟨.start g, fun w hw root => ?_, Walk.foldl_visit_eq (.start g) _⟩
  rw [Walk.visit_eq hw.consistent]
  exact ⟨rfl, hw.explore root⟩

theorem visit_eq_explore_loop :
    ((Walk.start Sample.loop).explore Sample.types Sample.loop ⟨1⟩).events =
        [.cycleDetected [⟨1⟩, ⟨2⟩, ⟨1⟩], .nodeEntered ⟨2⟩, .nodeEntered ⟨1⟩] ∧
      ((Walk.start Sample.loop).explore Sample.types Sample.loop ⟨1⟩).outcome? ⟨2⟩ =
        some (.error []) := by
  obtain ⟨hstart, hvisit, -⟩ := visit_eq_explore Sample.types Sample.loop
  rw [← (hvisit _ hstart ⟨1⟩).1]
  exact ⟨by decide_cbv, by decide_cbv⟩

end ShaderNodes
