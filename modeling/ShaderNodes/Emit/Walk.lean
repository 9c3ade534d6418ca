import ShaderNodes.Catalogue.Basic
import ShaderNodes.Emit.Fragment

/-!
# The walk through a graph

Every node of a graph is compiled once, after the nodes in front of it. The walk goes depth first
and keeps the nodes that it is inside of on a path; meeting one of them again closes a cycle, which
is recorded against that node and keeps it from succeeding.

The walk has a slot for every node and for every source of a joint, in that order. A slot goes from
unvisited to active to done, or straight to done, and never back. The number of unvisited slots
shrinks with every node that is entered, which is why the walk ends.
-/

namespace ShaderNodes

/-- How far a slot has come. -/
inductive SlotState
  | unvisited
  /-- The walk is inside the node; with the cycles recorded against it so far. -/
  | active (cycles : List Diagnostic)
  | done (outcome : Outcome)

namespace SlotState

/-- Whether the walk has not been here. -/
def isUnvisited : SlotState → Bool
  | unvisited => true
  | _ => false

/-- The outcome as other nodes see it: an active node with a recorded cycle has failed. -/
def outcome? : SlotState → Option Outcome
  | unvisited => none
  | active [] => none
  | active cycles => some (.error cycles)
  | done outcome => some outcome

/-- The state once the node is compiled: recorded cycles come first and rule out success. -/
def settle (outcome : Outcome) : SlotState → SlotState
  | active (c :: cs) => done (.error (c :: cs ++ outcome.errors))
  | _ => done outcome

end SlotState

/-- The slot of a node. -/
structure Slot where
  node : NodeId
  state : SlotState

instance : Keyed Slot NodeId := ⟨Slot.node⟩

/-- A node that the walk is inside of. -/
structure Frame where
  node : Node
  type : NodeType
  /-- The joints into the node. -/
  joints : List Joint
  /-- The nodes in front of it. -/
  dependencies : List NodeId
  /-- Those of them that are still to be visited. -/
  pending : List NodeId

/-- A walk on its way. -/
structure Walk where
  /-- The slots in order. -/
  slots : Roster Slot
  /-- The nodes that the walk is inside of, the innermost first. -/
  path : List NodeId
  /-- The events so far, the latest first. -/
  events : List Event

namespace Graph

/-- The joints into a node. -/
def jointsInto (g : Graph) (id : NodeId) : List Joint :=
  g.joints.entries.filter fun j => j.dest.node = id

end Graph

/-- Each element where it occurs first. -/
def firstOccurrences {α : Type} [DecidableEq α] (xs : List α) : List α :=
  xs.foldl (fun seen x => if x ∈ seen then seen else seen ++ [x]) []

/-- The nodes in front of a node, each once: first the sources of its declared inputs in declared
order, then all other sources. -/
def dependenciesOf (type : NodeType) (joints : List Joint) : List NodeId :=
  let declared := type.inputs.entries.filterMap fun input =>
    joints.find? fun j => j.dest.input = input
  firstOccurrences ((declared ++ joints).map fun j => j.source.node)

namespace Walk

/-- The walk before its first step. -/
def start (g : Graph) : Walk where
  slots := .ofList ((g.nodes.keys ++ g.joints.entries.map fun j => j.source.node).map
    fun id => ⟨id, .unvisited⟩)
  path := []
  events := []

/-- How far the slot of a node has come. -/
def state? (w : Walk) (id : NodeId) : Option SlotState := (w.slots.get? id).map Slot.state

/-- The outcome of a node as other nodes see it. -/
def outcome? (w : Walk) (id : NodeId) : Option Outcome := (w.state? id).bind SlotState.outcome?

/-- The fragment of a node that has succeeded. -/
def fragment? (w : Walk) (id : NodeId) : Option Fragment :=
  (w.outcome? id).bind Checked.value?

/-- All errors, slot by slot. -/
def errors (w : Walk) : List Diagnostic :=
  w.slots.entries.flatMap fun slot =>
    match slot.state.outcome? with
    | some outcome => outcome.errors
    | none => []

/-- Reports an event. -/
def emit (w : Walk) (e : Event) : Walk := { w with events := e :: w.events }

/-- Changes a slot. -/
def set (w : Walk) (id : NodeId) (state : SlotState) : Walk :=
  { w with slots := w.slots.put ⟨id, state⟩ }

/-- Stores the outcome of a node. -/
def finish (w : Walk) (id : NodeId) (outcome : Outcome) : Walk :=
  w.set id (((w.state? id).getD .unvisited).settle outcome)

/-- The cycle that is closed by meeting `id` on the path: the nodes from `id` to the innermost one,
and `id` again. If `id` were not on the path, it would start at the outermost node. -/
def cycleAt (w : Walk) (id : NodeId) : List NodeId :=
  w.path.reverse.drop ((w.path.reverse.idxOf? id).getD 0) ++ [id]

/-- Records a cycle against an active node. -/
def recordCycle (w : Walk) (id : NodeId) (cycles : List Diagnostic) : Walk :=
  let path := w.cycleAt id
  (w.emit (.cycleDetected path)).set id (.active (cycles ++ [⟨id, .cycle path⟩]))

/-- Starts on a node. Gives a frame when there is something to visit before it can be compiled. -/
def enter (types : Catalogue) (g : Graph) (w : Walk) (id : NodeId) : Walk × Option Frame :=
  match w.state? id with
  | none | some (.done _) => (w, none)
  | some (.active cycles) => (w.recordCycle id cycles, none)
  | some .unvisited =>
    let w := w.emit (.nodeEntered id)
    match g.nodes.get? id with
    | none => (w.finish id (.error [⟨id, .nodeNotFound⟩]), none)
    | some node =>
      match types.get? node.type with
      | none => (w.finish id (.error [⟨id, .typeNotFound node.type⟩]), none)
      | some type =>
        let joints := g.jointsInto id
        let dependencies := dependenciesOf type joints
        let w := { w.set id (.active []) with path := id :: w.path }
        (w, some ⟨node, type, joints, dependencies, dependencies⟩)

/-- Compiles a node once the nodes in front of it have been visited. -/
def leave (w : Walk) (frame : Frame) : Walk :=
  let w := { w with path := w.path.tail }
  w.finish frame.node.id
    (Fragment.compile frame.node frame.type frame.joints frame.dependencies w.outcome?)

/-! ## The walk ends -/

/-- How many slots have not been visited. -/
def unvisited (w : Walk) : Nat := w.slots.entries.countP fun slot => slot.state.isUnvisited

theorem count_of_imp {a b : Bool} (h : a = true → b = true) :
    (if a = true then 1 else 0) ≤ if b = true then 1 else 0 := by
  split
  · next ha => exact Nat.le_of_eq (if_pos (h ha)).symm
  · exact Nat.zero_le _

private theorem countP_map_le {α : Type} (p : α → Bool) (f : α → α)
    (h : ∀ a, p (f a) = true → p a = true) (l : List α) : (l.map f).countP p ≤ l.countP p := by
  induction l with
  | nil => simp
  | cons a l ih =>
    simp only [List.map_cons, List.countP_cons]
    exact Nat.add_le_add ih (count_of_imp (h a))

private theorem countP_map_lt {α : Type} (p : α → Bool) (f : α → α)
    (h : ∀ a, p (f a) = true → p a = true) {l : List α} {a : α} (ha : a ∈ l) (hp : p a = true)
    (hf : p (f a) = false) : (l.map f).countP p < l.countP p := by
  induction l with
  | nil => simp at ha
  | cons b l ih =>
    simp only [List.map_cons, List.countP_cons]
    have hle := countP_map_le p f h l
    rcases List.mem_cons.1 ha with rfl | ha
    · rw [if_pos hp, if_neg (by simp [hf])]
      omega
    · exact Nat.add_lt_add_of_lt_of_le (ih ha) (count_of_imp (h b))

theorem unvisited_set_le (w : Walk) (id : NodeId) {state : SlotState}
    (h : state.isUnvisited = false) : (w.set id state).unvisited ≤ w.unvisited := by
  unfold unvisited set
  simp only [Roster.entries_put]
  split
  · refine countP_map_le _ _ (fun slot hs => ?_) _
    split at hs
    · simp [h] at hs
    · exact hs
  · simp [List.countP_append, h]

theorem unvisited_set_lt (w : Walk) (id : NodeId) {state : SlotState}
    (h : state.isUnvisited = false) (hid : w.state? id = some .unvisited) :
    (w.set id state).unvisited < w.unvisited := by
  obtain ⟨slot, hget, hstate⟩ := Option.map_eq_some_iff.1 hid
  have hmem := List.mem_of_find?_eq_some hget
  have hkey : key slot = id := by simpa using List.find?_some hget
  unfold unvisited set
  simp only [Roster.entries_put]
  rw [if_pos]
  · refine countP_map_lt _ _ (fun s hs => ?_) hmem (by simp [hstate, SlotState.isUnvisited]) ?_
    · split at hs
      · simp [h] at hs
      · exact hs
    · rw [if_pos (show key slot = key (⟨id, state⟩ : Slot) from hkey)]
      exact h
  · exact List.any_eq_true.2 ⟨slot, hmem, decide_eq_true hkey⟩

theorem isUnvisited_settle (outcome : Outcome) (s : SlotState) :
    (s.settle outcome).isUnvisited = false := by
  unfold SlotState.settle
  split <;> rfl

theorem unvisited_finish_le (w : Walk) (id : NodeId) (outcome : Outcome) :
    (w.finish id outcome).unvisited ≤ w.unvisited :=
  unvisited_set_le w id (isUnvisited_settle _ _)

theorem unvisited_enter_le (types : Catalogue) (g : Graph) (w : Walk) (id : NodeId) :
    (w.enter types g id).1.unvisited ≤ w.unvisited := by
  unfold enter
  split
  · exact Nat.le_refl _
  · exact Nat.le_refl _
  · exact unvisited_set_le (w.emit _) id rfl
  · split
    · exact unvisited_finish_le (w.emit _) id _
    · split
      · exact unvisited_finish_le (w.emit _) id _
      · exact unvisited_set_le (w.emit _) id rfl

theorem unvisited_enter_lt {types : Catalogue} {g : Graph} {w w' : Walk} {id : NodeId}
    {frame : Frame} (h : w.enter types g id = (w', some frame)) :
    w'.unvisited < w.unvisited := by
  unfold enter at h
  split at h
  · cases h
  · cases h
  · cases h
  · next hs =>
    split at h
    · cases h
    · split at h
      · cases h
      · cases h
        exact unvisited_set_lt (w.emit _) id rfl hs

theorem unvisited_leave_le (w : Walk) (frame : Frame) : (w.leave frame).unvisited ≤ w.unvisited :=
  unvisited_finish_le { w with path := w.path.tail } _ _

/-- Steps left on the frames, apart from those that entering further nodes will bring. -/
def workLeft : List Frame → Nat
  | [] => 0
  | frame :: rest => frame.pending.length + 1 + workLeft rest

/-- Goes on until all frames are done. -/
def run (types : Catalogue) (g : Graph) : List Frame → Walk → Walk
  | [], w => w
  | ⟨node, type, joints, dependencies, []⟩ :: rest, w =>
    run types g rest (w.leave ⟨node, type, joints, dependencies, []⟩)
  | ⟨node, type, joints, dependencies, d :: pending⟩ :: rest, w =>
    match h : w.enter types g d with
    | (w', none) =>
      have := unvisited_enter_le types g w d
      run types g (⟨node, type, joints, dependencies, pending⟩ :: rest) w'
    | (w', some child) =>
      have := unvisited_enter_lt h
      run types g (child :: ⟨node, type, joints, dependencies, pending⟩ :: rest) w'
termination_by frames w => (w.unvisited, workLeft frames)
decreasing_by
  · have := unvisited_leave_le w ⟨node, type, joints, dependencies, []⟩
    simp only [Prod.lex_def, workLeft]
    omega
  · rw [h] at this
    simp only [Prod.lex_def, workLeft, List.length_cons] at *
    omega
  · exact Prod.Lex.left _ _ this

/-- Visits a node and everything in front of it. -/
def visit (types : Catalogue) (g : Graph) (w : Walk) (id : NodeId) : Walk :=
  match w.enter types g id with
  | (w, none) => w
  | (w, some frame) => run types g [frame] w

end Walk

/-- The walk through all nodes of a graph. -/
def walk (types : Catalogue) (g : Graph) : Walk :=
  g.nodes.keys.foldl (Walk.visit types g) (.start g)

end ShaderNodes
