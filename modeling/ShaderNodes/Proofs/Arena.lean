import Mathlib
import ShaderNodes.Proofs.Diagnostics
import ShaderNodes.Proofs.Turns

/-!
# The walk over an arena

The slots of a walk can be kept in rows: their nodes, how far they have come and what they have
brought stand in three lists, at the same index. Everything is then said by index: the path is a
stack of indices, frames carry the index of their node, and the walk is asked to visit the indices
of the placed nodes. Here a lookup can go wrong, so each operation gives `none` when an index is out
of range. It never is: turn by turn, the arena holds what the slots of the walk hold.

* `Arena`, `Pass`: a walk in rows, and the work that is left to it;
* `Walk.arena`, `Stage.pass`: the rows of a walk;
* `Walk.arena_enter`, `Walk.arena_leave`: entering and leaving a node by index;
* `Stage.turn_pass`, `passAt_eq`: a pass over the arena is the walk in rows, after any number of
  turns.
-/

namespace ShaderNodes

/-- Putting an entry under a key that is present changes the entry at the index of the key. -/
theorem Roster.entries_put_of_mem {α κ : Type} [Keyed α κ] [DecidableEq κ] {r : Roster α} {x : α}
    (h : key x ∈ r.keys) : (r.put x).entries = r.entries.set (r.keys.idxOf (key x)) x := by
  rw [entries_put, if_pos ((contains_iff_mem_keys r _).2 h)]
  refine List.ext_getElem (by simp) fun i hi hi' => ?_
  rw [List.length_map] at hi
  have hlt : i < r.keys.length := by
    unfold keys
    rwa [List.length_map]
  have hkey : r.keys.get ⟨i, hlt⟩ = key r.entries[i] := List.getElem_map _
  have hiff : key r.entries[i] = key x ↔ r.keys.idxOf (key x) = i := by
    rw [← hkey]
    constructor
    · intro he
      rw [← he]
      exact r.keys_nodup.idxOf_getElem i hlt
    · intro he
      subst he
      exact List.getElem_idxOf _
  rw [List.getElem_map, List.getElem_set]
  simp only [hiff]

theorem set_eq_self {α : Type} {xs : List α} {i : Nat} {x : α} (h : xs[i]? = some x) :
    xs.set i x = xs := by
  obtain ⟨hlt, rfl⟩ := List.getElem?_eq_some_iff.1 h
  exact List.set_getElem_self hlt

/-! ## Arenas -/

/-- How far a slot has come, apart from what it has brought. -/
inductive VisitState
  | unvisited
  | inProgress
  | done

/-- A walk in rows. -/
@[ext] structure Arena where
  /-- The node of each slot. -/
  ids : List NodeId
  /-- How far each slot has come. -/
  states : List VisitState
  /-- What each slot has brought so far. -/
  results : List (Option Outcome)
  /-- The indices of the nodes that the walk is inside of, the outermost first. -/
  stack : List Nat
  /-- The events so far, the latest first. -/
  events : List Event

/-- A frame with the index of its node. -/
structure Task where
  index : Nat
  frame : Frame

namespace Arena

/-- The arena of a graph: its nodes come first, then the sources of joints that are not placed. -/
def start (g : Graph) : Arena :=
  let ids := firstOccurrences (g.nodes.keys ++ g.joints.entries.map fun j => j.source.node)
  ⟨ids, List.replicate ids.length .unvisited, List.replicate ids.length none, [], []⟩

/-- The index of a node. -/
def index? (a : Arena) (id : NodeId) : Option Nat := a.ids.idxOf? id

/-- The outcome of a node as other nodes see it. -/
def outcome? (a : Arena) (id : NodeId) : Option Outcome :=
  (a.index? id).bind fun i => a.results[i]?.join

/-- Records a cycle against a node that is in progress. -/
def recordCycle (a : Arena) (i : Nat) : Option Arena := do
  let id ← a.ids[i]?
  let inner ← (a.stack.drop ((a.stack.idxOf? i).getD 0)).mapM fun j => a.ids[j]?
  let result ← a.results[i]?
  let path := inner ++ [id]
  let errors := result.elim [] Checked.errors ++ [⟨id, .cycle path⟩]
  return { a with
    results := a.results.set i (some (.error errors)), events := .cycleDetected path :: a.events }

/-- The outcome of a node for which a result may be there already: errors stay and come first. -/
def merge (result : Option Outcome) (outcome : Outcome) : Outcome :=
  match result with
  | some (.error errors) => .error (errors ++ Checked.errors outcome)
  | _ => outcome

/-- Stores the outcome of a node. -/
def finish (a : Arena) (i : Nat) (outcome : Outcome) : Option Arena := do
  let result ← a.results[i]?
  let _ ← a.states[i]?
  return { a with
    states := a.states.set i .done, results := a.results.set i (some (merge result outcome)) }

/-- Starts on a node. Gives a task when there is something to visit before it can be compiled. -/
def enter (types : Catalogue) (g : Graph) (a : Arena) (i : Nat) : Option (Arena × Option Task) := do
  match ← a.states[i]? with
  | .done => return (a, none)
  | .inProgress => return (← a.recordCycle i, none)
  | .unvisited =>
    let id ← a.ids[i]?
    let a := { a with events := .nodeEntered id :: a.events }
    match g.nodes.get? id with
    | none => return (← a.finish i (.error [⟨id, .nodeNotFound⟩]), none)
    | some node =>
      match types.get? node.type with
      | none => return (← a.finish i (.error [⟨id, .typeNotFound node.type⟩]), none)
      | some type =>
        let joints := g.jointsInto id
        let dependencies := dependenciesOf type joints
        return ({ a with states := a.states.set i .inProgress, stack := a.stack ++ [i] },
          some ⟨i, ⟨node, type, joints, dependencies, dependencies⟩⟩)

/-- Compiles a node once the nodes in front of it have been visited. -/
def leave (a : Arena) (task : Task) : Option Arena :=
  let a := { a with stack := a.stack.dropLast }
  a.finish task.index (task.frame.outcome a.outcome?)

end Arena

/-- A pass over an arena, with the tasks at hand, the innermost first, and the indices that it will
still be asked to visit. -/
structure Pass where
  arena : Arena
  tasks : List Task
  roots : List Nat

namespace Pass

def start (g : Graph) : Pass := ⟨.start g, [], List.range g.nodes.size⟩

/-- The pass after the next turn, or after none if nothing is left to do. -/
def turn (types : Catalogue) (g : Graph) : Pass → Option Pass
  | ⟨a, [], []⟩ => some ⟨a, [], []⟩
  | ⟨a, [], i :: roots⟩ => do
    let (a, child) ← a.enter types g i
    return ⟨a, child.toList, roots⟩
  | ⟨a, ⟨i, frame⟩ :: rest, roots⟩ =>
    match frame.pending with
    | [] => do return ⟨← a.leave ⟨i, frame⟩, rest, roots⟩
    | d :: pending =>
      match a.index? d with
      | none => some ⟨a, ⟨i, { frame with pending }⟩ :: rest, roots⟩
      | some j => do
        let (a, child) ← a.enter types g j
        return ⟨a, child.toList ++ ⟨i, { frame with pending }⟩ :: rest, roots⟩

end Pass

/-- The pass over the arena of a graph after `k` turns. -/
def passAt (types : Catalogue) (g : Graph) : Nat → Option Pass
  | 0 => some (.start g)
  | k + 1 => (passAt types g k).bind (Pass.turn types g)

/-! ## The rows of a walk -/

def SlotState.visit : SlotState → VisitState
  | unvisited => .unvisited
  | active _ => .inProgress
  | done _ => .done

namespace Walk

/-- The place of a node among the slots; the number of slots for a node that has none. -/
def index (w : Walk) (n : NodeId) : Nat := w.slots.keys.idxOf n

/-- The slots of a walk in rows. -/
def arena (w : Walk) : Arena where
  ids := w.slots.keys
  states := w.slots.entries.map fun slot => slot.state.visit
  results := w.slots.entries.map fun slot => slot.state.outcome?
  stack := w.path.reverse.map w.index
  events := w.events

/-! ### Lookups -/

variable {w : Walk} {n : NodeId} {s : SlotState}

theorem index_congr {w w' : Walk} (h : w'.slots.keys = w.slots.keys) : w'.index = w.index := by
  funext n
  unfold index
  rw [h]

theorem index_inj {m : NodeId} (hn : n ∈ w.slots.keys) : w.index n = w.index m ↔ n = m :=
  List.idxOf_inj hn

theorem getElem?_ids (h : n ∈ w.slots.keys) : w.arena.ids[w.index n]? = some n :=
  List.getElem?_idxOf h

theorem index?_arena (h : n ∈ w.slots.keys) : w.arena.index? n = some (w.index n) := by
  refine List.idxOf?_eq_some_iff.2 ⟨List.idxOf_lt_length_iff.2 h, List.getElem_idxOf _, ?_⟩
  intro j hj hget
  have hne := List.not_of_lt_findIdx hj
  rw [beq_eq_false_iff_ne] at hne
  exact hne hget

theorem getElem?_entries (h : w.state? n = some s) :
    w.slots.entries[w.index n]? = some ⟨n, s⟩ := by
  have hids := getElem?_ids (mem_keys_iff_state?.2 ⟨s, h⟩)
  unfold arena Roster.keys at hids
  rw [List.getElem?_map] at hids
  obtain ⟨⟨m, t⟩, hslot, hm⟩ := Option.map_eq_some_iff.1 hids
  obtain rfl : m = n := hm
  have hget : w.slots.get? m = some ⟨m, t⟩ := Roster.get?_key (List.mem_of_getElem? hslot)
  unfold state? at h
  rw [hget] at h
  obtain rfl : t = s := Option.some.inj h
  exact hslot

theorem getElem?_states (h : w.state? n = some s) :
    w.arena.states[w.index n]? = some s.visit := by
  unfold arena
  rw [List.getElem?_map, getElem?_entries h]
  rfl

theorem getElem?_results (h : w.state? n = some s) :
    w.arena.results[w.index n]? = some s.outcome? := by
  unfold arena
  rw [List.getElem?_map, getElem?_entries h]
  rfl

theorem outcome?_arena (w : Walk) : w.arena.outcome? = w.outcome? := by
  funext n
  unfold Arena.outcome? outcome?
  cases h : w.state? n with
  | none =>
    have hn : n ∉ w.slots.keys := fun hmem => by
      obtain ⟨s, hs⟩ := mem_keys_iff_state?.1 hmem
      rw [h] at hs
      cases hs
    have hindex : w.arena.index? n = none := List.idxOf?_eq_none_iff.2 hn
    rw [hindex]
    rfl
  | some s =>
    rw [index?_arena (mem_keys_iff_state?.2 ⟨s, h⟩), Option.bind_some, getElem?_results h]
    rfl

/-! ### Changes -/

/-- Changing a slot changes the rows at its index. -/
theorem arena_set (h : w.state? n = some s) (s' : SlotState) :
    (w.set n s').arena = { w.arena with
      states := w.arena.states.set (w.index n) s'.visit
      results := w.arena.results.set (w.index n) s'.outcome? } := by
  have hkeys : (w.set n s').slots.keys = w.slots.keys := keys_set h
  have hentries : (w.set n s').slots.entries = w.slots.entries.set (w.index n) ⟨n, s'⟩ :=
    Roster.entries_put_of_mem (x := (⟨n, s'⟩ : Slot)) (mem_keys_iff_state?.2 ⟨s, h⟩)
  unfold arena
  rw [hkeys, hentries, index_congr hkeys, List.map_set, List.map_set]
  rfl

theorem map_state_start {α : Type} (g : Graph) (f : SlotState → α) :
    (Walk.start g).slots.entries.map (fun slot => f slot.state) =
      List.replicate (Walk.start g).slots.keys.length (f .unvisited) := by
  have hlength : (Walk.start g).slots.keys.length = (Walk.start g).slots.entries.length :=
    List.length_map _
  rw [hlength, ← List.map_const']
  apply List.map_congr_left
  intro slot hslot
  obtain ⟨id, -, rfl⟩ := List.mem_map.1 (Roster.mem_of_mem_ofList hslot)
  rfl

/-- The rows of a walk before the first step. -/
theorem arena_start (g : Graph) : (Walk.start g).arena = .start g := by
  unfold Arena.start
  rw [← keys_start_eq_firstOccurrences]
  exact Arena.ext rfl (map_state_start g SlotState.visit) (map_state_start g SlotState.outcome?)
    rfl rfl

theorem mapM_ids {ids : List NodeId} (h : ∀ m ∈ ids, m ∈ w.slots.keys) :
    (ids.map w.index).mapM (fun j => w.arena.ids[j]?) = some ids := by
  induction ids with
  | nil => rfl
  | cons m ids ih =>
    rw [List.map_cons, List.mapM_cons, getElem?_ids (h m List.mem_cons_self),
      ih fun k hk => h k (List.mem_cons_of_mem _ hk)]
    rfl

theorem idxOf?_map_index {ids : List NodeId} (hn : n ∈ w.slots.keys) :
    (ids.map w.index).idxOf? (w.index n) = ids.idxOf? n := by
  induction ids with
  | nil => rfl
  | cons m ids ih =>
    have hiff : (w.index m == w.index n) = (m == n) := by
      rw [Bool.eq_iff_iff, beq_iff_eq, beq_iff_eq, eq_comm, index_inj hn, eq_comm]
    rw [List.map_cons, List.idxOf?_cons, List.idxOf?_cons, ih, hiff]

theorem arena_of_recordCycle {cycles : List Diagnostic}
    (h : w.state? n = some (.active cycles)) :
    (w.recordCycle n cycles).arena = { w.arena with
      results := w.arena.results.set (w.index n)
        (some (.error (cycles ++ [⟨n, .cycle (w.cycleAt n)⟩])))
      events := .cycleDetected (w.cycleAt n) :: w.arena.events } := by
  have hsame : w.arena.states.set (w.index n) .inProgress = w.arena.states :=
    set_eq_self (getElem?_states h)
  unfold recordCycle
  rw [arena_set (w := w.emit _) h, SlotState.outcome?_active (by simp)]
  exact Arena.ext rfl hsame rfl rfl rfl

/-- Recording a cycle by index: the path is read off the stack. -/
theorem arena_recordCycle {cycles : List Diagnostic} (h : w.state? n = some (.active cycles))
    (hpath : ∀ m ∈ w.path, m ∈ w.slots.keys) :
    w.arena.recordCycle (w.index n) = some (w.recordCycle n cycles).arena := by
  have hn : n ∈ w.slots.keys := mem_keys_iff_state?.2 ⟨_, h⟩
  have hinner : (w.arena.stack.drop ((w.arena.stack.idxOf? (w.index n)).getD 0)).mapM
      (fun j => w.arena.ids[j]?) =
        some (w.path.reverse.drop ((w.path.reverse.idxOf? n).getD 0)) := by
    have hstack : w.arena.stack = w.path.reverse.map w.index := rfl
    rw [hstack, idxOf?_map_index hn, ← List.map_drop]
    exact mapM_ids fun m hm => hpath m (List.mem_reverse.1 (List.mem_of_mem_drop hm))
  have herrors : (SlotState.active cycles).outcome?.elim [] Checked.errors = cycles := by
    cases cycles <;> rfl
  rw [arena_of_recordCycle h]
  simp only [Arena.recordCycle, Option.bind_eq_bind, getElem?_ids hn, hinner, getElem?_results h,
    Option.bind_some, herrors]
  rfl

theorem arena_finish (h : w.state? n = some s) (hs : ∀ o, s ≠ .done o) (outcome : Outcome) :
    w.arena.finish (w.index n) outcome = some (w.finish n outcome).arena := by
  have hmerge : (s.settle outcome).outcome? = some (Arena.merge s.outcome? outcome) := by
    cases s with
    | unvisited => rfl
    | active cycles => cases cycles <;> rfl
    | done o => exact absurd rfl (hs o)
  have hvisit : (s.settle outcome).visit = .done := by
    cases s with
    | unvisited => rfl
    | active cycles => cases cycles <;> rfl
    | done o => rfl
  unfold finish
  rw [h, Option.getD_some, arena_set h, hmerge, hvisit]
  simp only [Arena.finish, Option.bind_eq_bind, getElem?_results h, getElem?_states h,
    Option.bind_some]
  rfl

/-- Going into a node by index. -/
theorem arena_descend (h : w.state? n = some .unvisited) :
    (w.descend n).arena = { w.arena with
      states := w.arena.states.set (w.index n) .inProgress
      stack := w.arena.stack ++ [w.index n]
      events := .nodeEntered n :: w.arena.events } := by
  have hstack : (n :: w.path).reverse.map w.index = w.arena.stack ++ [w.index n] := by
    rw [List.reverse_cons, List.map_append]
    rfl
  have hsame : w.arena.results.set (w.index n) none = w.arena.results :=
    set_eq_self (getElem?_results h)
  have hset := arena_set (w := w.emit (.nodeEntered n)) h (.active [])
  have hindex : ((w.emit (.nodeEntered n)).set n (.active [])).index = w.index :=
    index_congr (keys_set (w := w.emit (.nodeEntered n)) h)
  have hdescend : (w.descend n).arena =
      { ((w.emit (.nodeEntered n)).set n (.active [])).arena with
        stack := (n :: w.path).reverse.map
          ((w.emit (.nodeEntered n)).set n (.active [])).index } := rfl
  rw [hdescend, hset, hindex, hstack]
  exact Arena.ext rfl rfl hsame rfl rfl

/-- Starting on a node by index. -/
theorem arena_enter (types : Catalogue) (g : Graph) (hn : n ∈ w.slots.keys)
    (hpath : ∀ m ∈ w.path, m ∈ w.slots.keys) :
    w.arena.enter types g (w.index n) =
      some ((w.enter types g n).1.arena, (w.enter types g n).2.map (Task.mk (w.index n))) := by
  obtain ⟨s, h⟩ := mem_keys_iff_state?.1 hn
  unfold Arena.enter enter
  rw [getElem?_states h, h]
  cases s with
  | done o => rfl
  | active cycles =>
    simp only [SlotState.visit, Option.bind_eq_bind, Option.bind_some, arena_recordCycle h hpath]
    rfl
  | unvisited =>
    have hfinish (outcome : Outcome) :
        ({ w.arena with events := .nodeEntered n :: w.arena.events } : Arena).finish (w.index n)
          outcome = some ((w.emit (.nodeEntered n)).finish n outcome).arena :=
      arena_finish (w := w.emit (.nodeEntered n)) h (fun _ => SlotState.noConfusion) outcome
    simp only [SlotState.visit, Option.bind_eq_bind, Option.bind_some, getElem?_ids hn, hfinish]
    cases g.nodes.get? n with
    | none => rfl
    | some node =>
      dsimp only
      cases Roster.get? types node.type with
      | none => rfl
      | some type => exact congrArg (fun a => some (a, _)) (arena_descend h).symm

/-- Leaving a node by index. -/
theorem arena_leave {frame : Frame} {cycles : List Diagnostic}
    (h : w.state? frame.node.id = some (.active cycles)) :
    w.arena.leave ⟨w.index frame.node.id, frame⟩ = some (w.leave frame).arena := by
  have hstack : { w.arena with stack := w.arena.stack.dropLast } =
      ({ w with path := w.path.tail } : Walk).arena := by
    unfold arena
    rw [← List.map_dropLast, List.dropLast_reverse]
    rfl
  unfold Arena.leave leave
  dsimp only
  rw [hstack, outcome?_arena]
  exact arena_finish (w := { w with path := w.path.tail }) h (fun _ => SlotState.noConfusion) _

end Walk

/-! ## Turns by index -/

/-- The tasks of frames. -/
def Walk.tasks (w : Walk) (frames : List Frame) : List Task :=
  frames.map fun frame => ⟨w.index frame.node.id, frame⟩

/-- The rows of a stage. -/
def Stage.pass (s : Stage) : Pass :=
  ⟨s.walk.arena, s.walk.tasks s.frames, s.roots.map s.walk.index⟩

/-- The indices of the placed nodes come first. -/
theorem Walk.map_index_start (g : Graph) :
    g.nodes.keys.map (Walk.start g).index = List.range g.nodes.size := by
  have hlength : g.nodes.keys.length = g.nodes.size := List.length_map _
  refine List.ext_getElem (by simp [hlength]) fun i hi hi' => ?_
  rw [List.length_map] at hi
  have hlt : i < (Walk.start g).slots.keys.length := by
    rw [keys_start, List.length_append]
    omega
  have hget : (Walk.start g).slots.keys[i] = g.nodes.keys[i] := by
    simp only [keys_start, List.getElem_append_left hi]
  rw [List.getElem_map, List.getElem_range, ← hget]
  exact (Walk.start g).slots.keys_nodup.idxOf_getElem i hlt

theorem Walk.tasks_enter (types : Catalogue) (g : Graph) (w : Walk) (n : NodeId) :
    ((w.enter types g n).2.map (Task.mk (w.index n))).toList =
      w.tasks (w.enter types g n).2.toList := by
  cases henter : (w.enter types g n).2 with
  | none => rfl
  | some frame =>
    have hid : frame.node.id = n := by
      unfold enter at henter
      split at henter
      · cases henter
      · cases henter
      · cases henter
      · split at henter
        · cases henter
        · next node hnode =>
          split at henter
          · cases henter
          · cases henter
            exact (Roster.mem_of_get? hnode).2
    unfold tasks
    rw [← hid]
    rfl

theorem Position.Tracked.mem_keys_of_mem_path {types : Catalogue} {g : Graph} {p : Position}
    (h : p.Tracked types g) {n : NodeId} (hn : n ∈ p.walk.path) : n ∈ p.walk.slots.keys := by
  obtain ⟨cycles, hactive⟩ := (h.active n).1 hn
  exact Walk.mem_keys_iff_state?.2 ⟨_, hactive⟩

namespace Stage

variable {types : Catalogue} {g : Graph}

theorem pass_start (g : Graph) : (start g).pass = .start g := by
  unfold pass start Pass.start
  dsimp only
  rw [Walk.arena_start, Walk.map_index_start]
  rfl

theorem pass_eq {t : Stage} {w : Walk} (h : t.walk.index = w.index) :
    t.pass = ⟨t.walk.arena, w.tasks t.frames, t.roots.map w.index⟩ := by
  unfold pass Walk.tasks
  rw [h]

/-- A turn by index gives the rows of the stage after the turn. -/
theorem turn_pass {s : Stage} (hs : s.Reached types g) :
    s.pass.turn types g = some (turn (next? types g) s).pass := by
  have htracked := hs.position.tracked
  have hpath : ∀ m ∈ s.walk.path, m ∈ s.walk.slots.keys := fun m => htracked.mem_keys_of_mem_path
  -- The slots stay where they are, so indices mean the same after the turn.
  have hindex : ∀ t, s.next? types g = some t → t.walk.index = s.walk.index := by
    intro t hnext
    apply Walk.index_congr
    rw [(hs.next hnext).position.tracked.keys, htracked.keys]
  obtain ⟨⟨frames, w⟩, roots⟩ := s
  cases frames with
  | nil =>
    cases roots with
    | nil => rfl
    | cons id roots =>
      have hid : id ∈ w.slots.keys := by
        rw [htracked.keys]
        exact Walk.mem_keys_start.2 (Or.inl (hs.roots id List.mem_cons_self))
      have hnext : next? types g ⟨⟨[], w⟩, id :: roots⟩ =
          some ⟨⟨(w.enter types g id).2.toList, (w.enter types g id).1⟩, roots⟩ := rfl
      rw [turn_eq hnext, pass_eq (hindex _ hnext), ← Walk.tasks_enter]
      simp only [pass, Walk.tasks, List.map_nil, List.map_cons, Pass.turn,
        Walk.arena_enter types g hid hpath, Option.bind_eq_bind, Option.bind_some]
      rfl
  | cons frame rest =>
    cases hpending : frame.pending with
    | nil =>
      obtain ⟨cycles, hactive⟩ := htracked.exists_active
      have hnext : next? types g ⟨⟨frame :: rest, w⟩, roots⟩ =
          some ⟨⟨rest, w.leave frame⟩, roots⟩ := by
        simp only [next?, hpending]
      rw [turn_eq hnext, pass_eq (hindex _ hnext)]
      simp only [pass, Walk.tasks, List.map_cons, Pass.turn, hpending, Walk.arena_leave hactive,
        Option.bind_eq_bind, Option.bind_some]
      rfl
    | cons d pending =>
      have hasks : Asks g (frame :: rest) d ({ frame with pending } :: rest) :=
        .pending hpending rest
      have hd : d ∈ w.slots.keys := Walk.mem_keys_iff_state?.2 (htracked.exists_state hasks)
      have hnext : next? types g ⟨⟨frame :: rest, w⟩, roots⟩ =
          some ⟨⟨(w.enter types g d).2.toList ++ { frame with pending } :: rest,
            (w.enter types g d).1⟩, roots⟩ := by
        simp only [next?, hpending]
      rw [turn_eq hnext, pass_eq (hindex _ hnext), Walk.tasks, List.map_append, ← Walk.tasks,
        ← Walk.tasks_enter]
      simp only [pass, Walk.tasks, List.map_cons, Pass.turn, hpending, Walk.index?_arena hd,
        Walk.arena_enter types g hd hpath, Option.bind_eq_bind, Option.bind_some]
      rfl

end Stage

/-- A pass over the arena is the walk in rows: no index is ever out of range. -/
theorem passAt_eq (types : Catalogue) (g : Graph) (k : Nat) :
    passAt types g k = some (stageAt types g k).pass := by
  induction k with
  | zero => exact congrArg some (Stage.pass_start g).symm
  | succ k ih =>
    rw [passAt, ih, Option.bind_some, Stage.stageAt_succ]
    exact Stage.turn_pass (Stage.reached_stageAt types g k)

end ShaderNodes
