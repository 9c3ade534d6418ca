import Mathlib.Logic.Relation
import ShaderNodes.Proofs.Joints

/-!
# Steps of the walk

A walk on its way is a position: the frames of the nodes that it is inside of, and what it has found
so far. Each step either takes the next node that is asked for (a placed node when there is no
frame, else the next one in front of the innermost frame) or compiles the node of the innermost
frame when nothing is left to visit in front of it.

* `Step`: everything a step can do;
* `Walk.steps_walk`: the walk through a graph is a sequence of steps, which ends without frames;
* `Position.Reached.induction`: what holds at the start and is kept by every step holds throughout;
* `Walk.walk_visited`: every placed node is visited.
-/

namespace ShaderNodes

open Relation

/-! ## Slots -/

/-- The outcome of a node against which cycles have been recorded: they come first and rule out
success. -/
def Outcome.blockedBy (cycles : List Diagnostic) (o : Outcome) : Outcome :=
  if cycles = [] then o else .error (cycles ++ Checked.errors o)

@[simp] theorem Outcome.blockedBy_nil (o : Outcome) : o.blockedBy [] = o := rfl

theorem Outcome.blockedBy_of_ne_nil {cycles : List Diagnostic} (h : cycles ≠ []) (o : Outcome) :
    o.blockedBy cycles = .error (cycles ++ Checked.errors o) := if_neg h

theorem Outcome.errors_blockedBy (cycles : List Diagnostic) (o : Outcome) :
    Checked.errors (o.blockedBy cycles) = cycles ++ Checked.errors o := by
  cases cycles <;> rfl

theorem SlotState.settle_active (cycles : List Diagnostic) (o : Outcome) :
    (SlotState.active cycles).settle o = .done (o.blockedBy cycles) := by
  cases cycles with
  | nil => rfl
  | cons c cs => rfl

theorem SlotState.outcome?_active {cycles : List Diagnostic} (h : cycles ≠ []) :
    (SlotState.active cycles).outcome? = some (.error cycles) := by
  cases cycles with
  | nil => exact absurd rfl h
  | cons c cs => rfl

namespace Walk

theorem state?_set (w : Walk) (id : NodeId) (s : SlotState) (n : NodeId) :
    (w.set id s).state? n = if n = id then some s else w.state? n := by
  unfold set state?
  rw [Roster.get?_put, show key (⟨id, s⟩ : Slot) = id from rfl]
  split <;> rfl

theorem state?_emit (w : Walk) (e : Event) (n : NodeId) :
    (w.emit e).state? n = w.state? n := rfl

theorem state?_path (w : Walk) (path : List NodeId) (n : NodeId) :
    ({ w with path } : Walk).state? n = w.state? n := rfl

theorem outcome?_path (w : Walk) (path : List NodeId) :
    ({ w with path } : Walk).outcome? = w.outcome? := rfl

theorem outcome?_eq {w : Walk} {n : NodeId} {s : SlotState} (h : w.state? n = some s) :
    w.outcome? n = s.outcome? := by
  unfold outcome?
  rw [h]
  rfl

theorem outcome?_of_done {w : Walk} {n : NodeId} {o : Outcome}
    (h : w.state? n = some (.done o)) : w.outcome? n = some o :=
  outcome?_eq h

theorem mem_keys_iff_state? {w : Walk} {n : NodeId} :
    n ∈ w.slots.keys ↔ ∃ s, w.state? n = some s := by
  rw [Roster.mem_keys_iff]
  unfold state?
  constructor
  · rintro ⟨slot, h⟩
    exact ⟨slot.state, by rw [h]; rfl⟩
  · rintro ⟨s, h⟩
    obtain ⟨slot, hslot, -⟩ := Option.map_eq_some_iff.1 h
    exact ⟨slot, hslot⟩

theorem keys_set {w : Walk} {id : NodeId} {s s' : SlotState} (h : w.state? id = some s) :
    (w.set id s').slots.keys = w.slots.keys := by
  have hkey : key (⟨id, s'⟩ : Slot) ∈ w.slots.keys := mem_keys_iff_state?.2 ⟨s, h⟩
  unfold set
  rw [Roster.keys_put, if_pos hkey]

/-! ## Entering and leaving a node -/

/-- The walk after a node without anything to compile has been met. -/
def reject (w : Walk) (id : NodeId) (problem : Problem) : Walk :=
  (w.emit (.nodeEntered id)).set id (.done (.error [⟨id, problem⟩]))

/-- The walk inside of a node that it has just entered. -/
def descend (w : Walk) (id : NodeId) : Walk :=
  { (w.emit (.nodeEntered id)).set id (.active []) with path := id :: w.path }

/-- The walk outside of a node that has been compiled. -/
def settle (w : Walk) (id : NodeId) (outcome : Outcome) : Walk :=
  ({ w with path := w.path.tail } : Walk).set id (.done outcome)

theorem state?_recordCycle (w : Walk) (id : NodeId) (cycles : List Diagnostic) (n : NodeId) :
    (w.recordCycle id cycles).state? n =
      if n = id then some (.active (cycles ++ [⟨id, .cycle (w.cycleAt id)⟩])) else w.state? n :=
  state?_set _ id _ n

theorem state?_reject (w : Walk) (id : NodeId) (problem : Problem) (n : NodeId) :
    (w.reject id problem).state? n =
      if n = id then some (.done (.error [⟨id, problem⟩])) else w.state? n :=
  state?_set _ id _ n

theorem state?_descend (w : Walk) (id n : NodeId) :
    (w.descend id).state? n = if n = id then some (.active []) else w.state? n :=
  state?_set _ id _ n

theorem state?_settle (w : Walk) (id : NodeId) (outcome : Outcome) (n : NodeId) :
    (w.settle id outcome).state? n = if n = id then some (.done outcome) else w.state? n :=
  state?_set _ id _ n

end Walk

/-- Why there is nothing to compile for a node. -/
inductive Rejected (types : Catalogue) (g : Graph) (id : NodeId) : Problem → Prop
  | missing (h : g.nodes.get? id = none) : Rejected types g id .nodeNotFound
  | untyped {node : Node} (h : g.nodes.get? id = some node) (htype : types.get? node.type = none) :
    Rejected types g id (.typeNotFound node.type)

theorem Rejected.not_known {types : Catalogue} {g : Graph} {id : NodeId} {problem : Problem}
    (h : Rejected types g id problem) : ¬ g.Known types id := by
  rintro ⟨node, type, hnode, htype⟩
  cases h with
  | missing hnone => rw [hnone] at hnode; cases hnode
  | untyped hsome hnone =>
    rw [hsome] at hnode
    cases hnode
    rw [hnone] at htype
    cases htype

theorem Rejected.unique {types : Catalogue} {g : Graph} {id : NodeId} {problem problem' : Problem}
    (h : Rejected types g id problem) (h' : Rejected types g id problem') : problem = problem' := by
  cases h with
  | missing hnone =>
    cases h' with
    | missing => rfl
    | untyped hsome => rw [hnone] at hsome; cases hsome
  | untyped hsome =>
    cases h' with
    | missing hnone => rw [hnone] at hsome; cases hsome
    | untyped hsome' => rw [Option.some.inj (hsome.symm.trans hsome')]

/-! ## Steps -/

/-- How far a walk has come: the frames of the nodes that it is inside of, the innermost first, and
what it has found. -/
structure Position where
  frames : List Frame
  walk : Walk

/-- `frames` ask for the node `id` next, and `rest` is what remains once it has been taken up. -/
inductive Asks (g : Graph) : List Frame → NodeId → List Frame → Prop
  | root {id : NodeId} (h : id ∈ g.nodes.keys) : Asks g [] id []
  | pending {frame : Frame} {id : NodeId} {pending : List NodeId}
    (h : frame.pending = id :: pending) (rest : List Frame) :
    Asks g (frame :: rest) id ({ frame with pending } :: rest)

/-- The frame of a node that has just been entered. -/
def Frame.opening (g : Graph) (node : Node) (type : NodeType) : Frame where
  node := node
  type := type
  joints := g.jointsInto node.id
  dependencies := g.dependencies type node.id
  pending := g.dependencies type node.id

/-- What compiling the node of a frame gives. -/
def Frame.outcome (frame : Frame) (lookup : NodeId → Option Outcome) : Outcome :=
  Fragment.compile frame.node frame.type frame.joints frame.dependencies lookup

/-- One step of the walk. -/
inductive Step (types : Catalogue) (g : Graph) : Position → Position → Prop
  /-- The node is settled already, or has no slot. -/
  | skip {frames rest : List Frame} {w : Walk} {id : NodeId} (hasks : Asks g frames id rest)
    (h : ∀ s, w.state? id = some s → ∃ o, s = .done o) :
    Step types g ⟨frames, w⟩ ⟨rest, w⟩
  /-- The walk is inside of the node already. -/
  | close {frames rest : List Frame} {w : Walk} {id : NodeId} {cycles : List Diagnostic}
    (hasks : Asks g frames id rest) (h : w.state? id = some (.active cycles)) :
    Step types g ⟨frames, w⟩ ⟨rest, w.recordCycle id cycles⟩
  /-- There is nothing to compile. -/
  | reject {frames rest : List Frame} {w : Walk} {id : NodeId} {problem : Problem}
    (hasks : Asks g frames id rest) (h : w.state? id = some .unvisited)
    (hreject : Rejected types g id problem) :
    Step types g ⟨frames, w⟩ ⟨rest, w.reject id problem⟩
  /-- The node is entered. -/
  | descend {frames rest : List Frame} {w : Walk} {id : NodeId} {node : Node} {type : NodeType}
    (hasks : Asks g frames id rest) (h : w.state? id = some .unvisited)
    (htyped : g.Typed types id node type) :
    Step types g ⟨frames, w⟩ ⟨Frame.opening g node type :: rest, w.descend id⟩
  /-- Everything in front of the node has been visited. -/
  | leave {frame : Frame} {rest : List Frame} {w : Walk} (h : frame.pending = []) :
    Step types g ⟨frame :: rest, w⟩ ⟨rest, w.leave frame⟩

namespace Walk

theorem finish_of_unvisited {w : Walk} {id : NodeId} (h : w.state? id = some .unvisited)
    (problem : Problem) :
    (w.emit (.nodeEntered id)).finish id (.error [⟨id, problem⟩]) = w.reject id problem := by
  unfold finish reject
  rw [state?_emit, h]
  rfl

/-- Entering the node that is asked for is a step. -/
theorem step_enter {types : Catalogue} {g : Graph} {frames rest : List Frame} {id : NodeId}
    (hasks : Asks g frames id rest) (w : Walk) :
    Step types g ⟨frames, w⟩
      ⟨(w.enter types g id).2.toList ++ rest, (w.enter types g id).1⟩ := by
  unfold enter
  split
  · next h => exact .skip hasks fun s hs => by rw [h] at hs; cases hs
  · next o h =>
    refine .skip hasks fun s hs => ⟨o, ?_⟩
    rw [h] at hs
    exact (Option.some.inj hs).symm
  · next cycles h => exact .close hasks h
  · next h =>
    split
    · next hnode =>
      dsimp only
      rw [finish_of_unvisited h]
      exact .reject hasks h (.missing hnode)
    · next node hnode =>
      split
      · next htype =>
        dsimp only
        rw [finish_of_unvisited h]
        exact .reject hasks h (.untyped hnode htype)
      · next type htype =>
        obtain rfl : node.id = id := (Roster.mem_of_get? hnode).2
        exact .descend hasks h ⟨hnode, htype⟩

/-- The walk is inside of the node of a frame, so leaving it settles the node. -/
theorem leave_eq {w : Walk} {frame : Frame} {cycles : List Diagnostic}
    (h : w.state? frame.node.id = some (.active cycles)) :
    w.leave frame =
      w.settle frame.node.id ((frame.outcome w.outcome?).blockedBy cycles) := by
  unfold leave finish settle Frame.outcome
  dsimp only
  rw [state?_path, h, Option.getD_some, SlotState.settle_active, outcome?_path]

theorem steps_run (types : Catalogue) (g : Graph) (frames : List Frame) (w : Walk) :
    ReflTransGen (Step types g) ⟨frames, w⟩ ⟨[], run types g frames w⟩ := by
  fun_induction run types g frames w with
  | case1 w => exact .refl
  | case2 node type joints dependencies rest w ih => exact .head (.leave rfl) ih
  | case3 node type joints dependencies d pending rest w w' henter _ ih =>
    have hasks :=
      @Asks.pending g ⟨node, type, joints, dependencies, d :: pending⟩ d pending rfl rest
    have hstep := @step_enter types g _ _ d hasks w
    rw [henter] at hstep
    exact .head hstep ih
  | case4 node type joints dependencies d pending rest w w' child henter _ ih =>
    have hasks :=
      @Asks.pending g ⟨node, type, joints, dependencies, d :: pending⟩ d pending rfl rest
    have hstep := @step_enter types g _ _ d hasks w
    rw [henter] at hstep
    exact .head hstep ih

theorem steps_visit_of_enter (types : Catalogue) (g : Graph) (w : Walk) (id : NodeId) :
    ReflTransGen (Step types g)
      ⟨(w.enter types g id).2.toList, (w.enter types g id).1⟩ ⟨[], w.visit types g id⟩ := by
  unfold visit
  cases w.enter types g id with
  | mk w' frame =>
    cases frame with
    | none => exact .refl
    | some frame => exact steps_run types g [frame] w'

theorem steps_visit {types : Catalogue} {g : Graph} {id : NodeId} (h : id ∈ g.nodes.keys)
    (w : Walk) : ReflTransGen (Step types g) ⟨[], w⟩ ⟨[], w.visit types g id⟩ := by
  have hstep := @step_enter types g [] [] id (.root h) w
  rw [List.append_nil] at hstep
  exact .head hstep (steps_visit_of_enter types g w id)

theorem steps_foldl_visit {types : Catalogue} {g : Graph} {ids : List NodeId}
    (h : ∀ id ∈ ids, id ∈ g.nodes.keys) (w : Walk) :
    ReflTransGen (Step types g) ⟨[], w⟩ ⟨[], ids.foldl (visit types g) w⟩ := by
  induction ids generalizing w with
  | nil => exact .refl
  | cons id ids ih =>
    exact (steps_visit (h id List.mem_cons_self) w).trans
      (ih (fun id' h' => h id' (List.mem_cons_of_mem _ h')) _)

/-- The walk through a graph is a sequence of steps. -/
theorem steps_walk (types : Catalogue) (g : Graph) :
    ReflTransGen (Step types g) ⟨[], .start g⟩ ⟨[], walk types g⟩ :=
  steps_foldl_visit (fun _ h => h) _

end Walk

/-- A position that the walk through `g` can come to. -/
def Position.Reached (types : Catalogue) (g : Graph) (p : Position) : Prop :=
  ReflTransGen (Step types g) ⟨[], .start g⟩ p

theorem Walk.reached_walk (types : Catalogue) (g : Graph) :
    Position.Reached types g ⟨[], walk types g⟩ :=
  steps_walk types g

/-- What holds at the start and is kept by every step from a reached position holds at every
position. -/
theorem Position.Reached.induction {types : Catalogue} {g : Graph} {P : Position → Prop}
    (hstart : P ⟨[], .start g⟩)
    (hstep : ∀ p q, p.Reached types g → P p → Step types g p q → P q) {p : Position}
    (h : p.Reached types g) : P p := by
  induction h with
  | refl => exact hstart
  | tail hreached hlast ih => exact hstep _ _ hreached ih hlast

/-! ## Every placed node is visited -/

namespace Walk

theorem visited_finish (w : Walk) (id : NodeId) (o : Outcome) {n : NodeId}
    (h : n ≠ id → w.state? n ≠ some .unvisited) : (w.finish id o).state? n ≠ some .unvisited := by
  rw [finish, state?_set]
  split
  · intro hs
    have hdone := isUnvisited_settle o ((w.state? id).getD .unvisited)
    rw [Option.some.inj hs] at hdone
    cases hdone
  · next hne => exact h hne

theorem enter_visited (types : Catalogue) (g : Graph) (w : Walk) (id : NodeId) :
    (w.enter types g id).1.state? id ≠ some .unvisited := by
  unfold enter
  split
  · next h => rw [h]; simp
  · next h => rw [h]; simp
  · simp [state?_recordCycle]
  · split
    · exact visited_finish _ id _ fun hne => absurd rfl hne
    · split
      · exact visited_finish _ id _ fun hne => absurd rfl hne
      · simp [state?_path, state?_set]

/-- A node that has been visited stays so. -/
theorem visited_of_step {types : Catalogue} {g : Graph} {p q : Position} (hstep : Step types g p q)
    {n : NodeId} (h : p.walk.state? n ≠ some .unvisited) :
    q.walk.state? n ≠ some .unvisited := by
  cases hstep with
  | skip => exact h
  | close =>
    rw [state?_recordCycle]
    split
    · simp
    · exact h
  | reject =>
    rw [state?_reject]
    split
    · simp
    · exact h
  | descend =>
    rw [state?_descend]
    split
    · simp
    · exact h
  | leave => exact visited_finish _ _ _ fun _ => h

theorem visited_of_steps {types : Catalogue} {g : Graph} {p q : Position}
    (hsteps : ReflTransGen (Step types g) p q) {n : NodeId}
    (h : p.walk.state? n ≠ some .unvisited) : q.walk.state? n ≠ some .unvisited := by
  induction hsteps with
  | refl => exact h
  | tail _ hstep ih => exact visited_of_step hstep ih

theorem visited_of_visit (types : Catalogue) (g : Graph) (w : Walk) (id : NodeId) :
    (w.visit types g id).state? id ≠ some .unvisited :=
  visited_of_steps (steps_visit_of_enter types g w id) (enter_visited types g w id)

theorem walk_visited (types : Catalogue) {g : Graph} {id : NodeId} (h : id ∈ g.nodes.keys) :
    (walk types g).state? id ≠ some .unvisited := by
  unfold walk
  obtain ⟨before, after, hkeys⟩ := List.append_of_mem h
  have hafter : ∀ n ∈ after, n ∈ g.nodes.keys := fun n hn => by simp [hkeys, hn]
  rw [hkeys, List.foldl_append, List.foldl_cons]
  exact visited_of_steps (steps_foldl_visit hafter _) (visited_of_visit types g _ id)

end Walk

end ShaderNodes
