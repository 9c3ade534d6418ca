import Mathlib
import ShaderNodes.Proofs.Diagnostics
import ShaderNodes.Proofs.Turns

/-!
# Compiling ends

A node costs the walk one turn for each node in front of it and one to be compiled, and it is paid
for once: a node that has been entered is never unvisited again. So the tolls of the unvisited
nodes, with the work left on the frames and the placed nodes still to be asked for, go down with
every turn, whatever cycles the joints form. The placing of fragments pays the same tolls, and one
turn more for each source of a joint that is not placed: it has a slot, so it is met and dropped.

* `Graph.toll`, `Graph.tolls_le`: what visiting costs, at most the size of the graph;
* `Stage.potential_next`, `Placement.potential_next`: every turn of the two loops lowers a number;
* `SlotState.Moves`: how a slot changes, and that a step changes slots in no other way;
* `compile_terminates`: compiling ends, with one preview per node and one visit to each slot.
-/

namespace ShaderNodes

/-! ## What visiting costs -/

namespace Graph

/-- One turn for each joint into a node, and one to compile it. -/
def toll (g : Graph) (n : NodeId) : Nat := (g.jointsInto n).length + 1

def tolls (g : Graph) (ids : Finset NodeId) : Nat := ∑ n ∈ ids, g.toll n

variable {types : Catalogue} {g : Graph}

theorem length_dependencies_le (g : Graph) (type : NodeType) (n : NodeId) :
    (g.dependencies type n).length ≤ (g.jointsInto n).length := by
  have hsub : g.dependencies type n ⊆ (g.jointsInto n).map fun j => j.source.node := by
    intro m hm
    obtain ⟨j, hj, hsource, hdest⟩ := mem_dependencies.1 hm
    exact List.mem_map.2 ⟨j, mem_jointsInto.2 ⟨hj, hdest⟩, hsource⟩
  have hle := (List.subperm_of_subset (g.dependencies_nodup type n) hsub).length_le
  rwa [List.length_map] at hle

theorem tolls_mono {ids ids' : Finset NodeId} (h : ids ⊆ ids') : g.tolls ids ≤ g.tolls ids' :=
  Finset.sum_le_sum_of_subset h

/-- A node that is struck off has paid its toll. -/
theorem toll_add_tolls_le {ids ids' : Finset NodeId} {n : NodeId} (hn : n ∈ ids') (hn' : n ∉ ids)
    (h : ids ⊆ ids') : g.toll n + g.tolls ids ≤ g.tolls ids' := by
  have hinsert : g.tolls (insert n ids) = g.toll n + g.tolls ids := Finset.sum_insert hn'
  rw [← hinsert]
  exact tolls_mono (Finset.insert_subset hn h)

/-- All tolls together: a turn for each of the nodes and for each joint. -/
theorem tolls_le {ids : Finset NodeId} {nodes : List NodeId} (h : ids ⊆ nodes.toFinset) :
    g.tolls ids ≤ nodes.length + g.joints.size := by
  let dests := g.joints.entries.map fun j => j.dest.node
  have hcount (n : NodeId) : (g.jointsInto n).length = dests.count n := by
    unfold jointsInto
    rw [List.count, List.countP_map, List.countP_eq_length_filter]
    rfl
  have hjoints : ∑ n ∈ ids, dests.count n ≤ g.joints.size := by
    calc ∑ n ∈ ids, dests.count n
        ≤ ∑ n ∈ ids ∪ dests.toFinset, dests.count n :=
          Finset.sum_le_sum_of_subset Finset.subset_union_left
      _ = dests.length := by
          simp only [← Multiset.coe_count, ← Multiset.coe_card]
          exact Multiset.sum_count_eq_card fun n hn =>
            Finset.mem_union_right _ (List.mem_toFinset.2 hn)
      _ = g.joints.size := List.length_map _
  have hnodes : ids.card ≤ nodes.length :=
    (Finset.card_le_card h).trans (List.toFinset_card_le nodes)
  unfold tolls toll
  simp only [Finset.sum_add_distrib, hcount, Finset.sum_const, smul_eq_mul, mul_one]
  omega

end Graph

/-! ## The walk ends -/

theorem Asks.workLeft_eq {g : Graph} {frames rest : List Frame} {id : NodeId}
    (h : Asks g frames id rest) :
    Walk.workLeft rest + min frames.length 1 = Walk.workLeft frames := by
  cases h with
  | root => rfl
  | @pending frame id pending h rest =>
    have hlength := congrArg List.length h
    rw [List.length_cons] at hlength
    simp only [Walk.workLeft, List.length_cons]
    omega

/-- The placed nodes that a walk has not visited. -/
def Walk.waiting (g : Graph) (w : Walk) : Finset NodeId :=
  g.nodes.keys.toFinset.filter fun n => (w.state? n).any SlotState.isUnvisited

namespace Walk

variable {types : Catalogue} {g : Graph} {w : Walk} {n : NodeId}

theorem isUnvisited_iff {s : SlotState} : s.isUnvisited = true ↔ s = .unvisited := by
  cases s <;> simp [SlotState.isUnvisited]

theorem mem_waiting : n ∈ w.waiting g ↔ n ∈ g.nodes.keys ∧ w.state? n = some .unvisited := by
  unfold waiting
  rw [Finset.mem_filter, List.mem_toFinset, Option.any_eq_true]
  simp only [isUnvisited_iff]
  exact and_congr_right fun _ => ⟨fun ⟨s, hs, he⟩ => he ▸ hs, fun h => ⟨_, h, rfl⟩⟩

theorem waiting_of_step {p q : Position} (h : Step types g p q) :
    q.walk.waiting g ⊆ p.walk.waiting g := by
  intro n hn
  obtain ⟨hkey, hq⟩ := mem_waiting.1 hn
  refine mem_waiting.2 ⟨hkey, ?_⟩
  by_contra hp
  exact visited_of_step h hp hq

end Walk

namespace Position

/-- The work left on the frames and for the nodes that have not been visited. -/
def work (g : Graph) (p : Position) : Nat := Walk.workLeft p.frames + g.tolls (p.walk.waiting g)

/-- A step adds no work, and takes some away if the walk is inside of a node. -/
theorem work_of_step {types : Catalogue} {g : Graph} {p q : Position} (h : Step types g p q) :
    q.work g + min p.frames.length 1 ≤ p.work g := by
  have hwaiting := Walk.waiting_of_step h
  have htolls := g.tolls_mono hwaiting
  unfold work
  cases h with
  | skip hasks =>
    have hleft := hasks.workLeft_eq
    dsimp only
    omega
  | close hasks | reject hasks =>
    have hleft := hasks.workLeft_eq
    dsimp only at htolls ⊢
    omega
  | @descend frames rest w id node type hasks hstate htyped =>
    have hleft := hasks.workLeft_eq
    have hplaced : id ∈ g.nodes.keys := Roster.mem_keys_iff.2 ⟨node, htyped.1⟩
    have hentered : id ∉ (w.descend id).waiting g := by
      intro hmem
      have hstill := (Walk.mem_waiting.1 hmem).2
      rw [Walk.state?_descend, if_pos rfl] at hstill
      cases hstill
    have hlength := g.length_dependencies_le type id
    have hpaid := g.toll_add_tolls_le (Walk.mem_waiting.2 ⟨hplaced, hstate⟩) hentered hwaiting
    obtain rfl := htyped.id_eq
    dsimp only [Walk.workLeft, Frame.opening, Graph.toll] at hpaid ⊢
    omega
  | leave =>
    dsimp only [Walk.workLeft, List.length_cons] at htolls ⊢
    omega

end Position

namespace Stage

variable {types : Catalogue} {g : Graph}

/-- The work left at a stage, with a turn for every placed node still to be asked for. -/
def potential (g : Graph) (s : Stage) : Nat := s.roots.length + s.toPosition.work g

theorem potential_next {s t : Stage} (hs : s.Reached types g) (h : s.next? types g = some t) :
    t.potential g < s.potential g := by
  obtain ⟨hstep, hroots⟩ := step_of_next? hs.roots h
  have hwork := Position.work_of_step hstep
  unfold potential
  rcases hroots with ⟨-, id, hid⟩ | ⟨hinside, hsame⟩
  · have hlength := congrArg List.length hid
    rw [List.length_cons] at hlength
    omega
  · have hpos := List.length_pos_iff.2 hinside
    rw [hsame]
    omega

theorem potential_start (g : Graph) : (start g).potential g ≤ 2 * g.nodes.size + g.joints.size := by
  have hroots : (start g).roots.length = g.nodes.size := List.length_map _
  have htolls : g.tolls ((Walk.start g).waiting g) ≤ g.nodes.keys.length + g.joints.size :=
    g.tolls_le (Finset.filter_subset _ _)
  have hkeys : g.nodes.keys.length = g.nodes.size := List.length_map _
  have hwork : (start g).toPosition.work g = g.tolls ((Walk.start g).waiting g) :=
    Nat.zero_add _
  unfold potential
  omega

theorem exists_halt (types : Catalogue) (g : Graph) :
    ∃ k ≤ 2 * g.nodes.size + g.joints.size, (stageAt types g k).next? types g = none := by
  obtain ⟨k, hk, hhalt⟩ := exists_halt_le (potential g) (fun _ _ hs hnext => hs.next hnext)
    (fun _ _ hs hnext => potential_next hs hnext) (Reached.start types g)
  exact ⟨k, hk.trans (potential_start g), hhalt⟩

end Stage

/-! ## The placing of fragments ends -/

namespace Placement

variable {types : Catalogue} {g : Graph}

/-- The slots of nodes that have not been met. -/
def ahead (w : Walk) (seen : List NodeId) : Finset NodeId :=
  w.slots.keys.toFinset \ seen.toFinset

/-- The work left on the stops and for the nodes that have not been met. -/
def potential (types : Catalogue) (g : Graph) (s : Placement) : Nat :=
  (walk types g).stepsLeft s.stops + g.tolls (ahead (walk types g) s.seen)

theorem mem_ahead {w : Walk} {seen : List NodeId} {n : NodeId} :
    n ∈ ahead w seen ↔ n ∈ w.slots.keys ∧ n ∉ seen := by
  unfold ahead
  rw [Finset.mem_sdiff, List.mem_toFinset, List.mem_toFinset]

theorem length_pending_le (types : Catalogue) (g : Graph) (n : NodeId) (next : Nat) :
    (Walk.Stop.pending (walk types g) ⟨n, next⟩).length ≤ (g.jointsInto n).length := by
  cases hf : (walk types g).fragment? n with
  | none =>
    simp only [Walk.Stop.pending, hf]
    exact Nat.zero_le _
  | some f =>
    obtain ⟨node, type, -, hdeps⟩ := Walk.known_of_fragment? hf
    rw [Walk.Stop.pending_of_fragment? hf, List.length_drop, hdeps]
    exact (Nat.sub_le _ _).trans (g.length_dependencies_le type n)

/-- Going to a node is paid for by its toll. -/
theorem opening_add_tolls_le {n : NodeId} {seen : List NodeId} (hn : n ∈ (walk types g).slots.keys)
    (hseen : n ∉ seen) :
    (Walk.Stop.pending (walk types g) ⟨n, 0⟩).length + 1
        + g.tolls (ahead (walk types g) (n :: seen)) ≤
      g.tolls (ahead (walk types g) seen) := by
  have hlength := length_pending_le types g n 0
  have hpaid : g.toll n + g.tolls (ahead (walk types g) (n :: seen)) ≤
      g.tolls (ahead (walk types g) seen) := by
    refine g.toll_add_tolls_le (mem_ahead.2 ⟨hn, hseen⟩) ?_ ?_
    · exact fun hmem => (mem_ahead.1 hmem).2 List.mem_cons_self
    · intro m hm
      obtain ⟨hkey, hm⟩ := mem_ahead.1 hm
      exact mem_ahead.2 ⟨hkey, fun hmem => hm (List.mem_cons_of_mem _ hmem)⟩
  unfold Graph.toll at hpaid
  omega

theorem potential_next {s t : Placement} (h : s.next? (walk types g) = some t) :
    t.potential types g < s.potential types g := by
  unfold potential
  cases turn_of_next? h with
  | drop | place =>
    simp only [Walk.stepsLeft]
    omega
  | push hf hnext hd =>
    have hpaid := opening_add_tolls_le hd.1 hd.2
    simp only [Walk.stepsLeft, Walk.Stop.pending_eq_cons hf hnext, List.length_cons]
    omega
  | skip hf hnext =>
    simp only [Walk.stepsLeft, Walk.Stop.pending_eq_cons hf hnext, List.length_cons]
    omega

theorem potential_start {n : NodeId} {f : Fragment} (hf : (walk types g).fragment? n = some f) :
    (start n).potential types g ≤
      g.nodes.size + g.unplacedSources.length + g.joints.size := by
  have hpaid := opening_add_tolls_le (Walk.mem_keys_of_fragment? hf) (List.not_mem_nil (a := n))
  have hall : g.tolls (ahead (walk types g) []) ≤
      (walk types g).slots.keys.length + g.joints.size := g.tolls_le Finset.sdiff_subset
  have hslots : (walk types g).slots.keys.length = g.nodes.size + g.unplacedSources.length := by
    rw [Walk.keys_walk, Walk.keys_start, List.length_append]
    exact congrArg (· + _) (List.length_map _)
  simp only [potential, start, Walk.stepsLeft]
  omega

theorem exists_halt {n : NodeId} {f : Fragment} (hf : (walk types g).fragment? n = some f) :
    ∃ k ≤ g.nodes.size + g.unplacedSources.length + g.joints.size,
      (placementAt (walk types g) n k).next? (walk types g) = none := by
  obtain ⟨k, hk, hhalt⟩ := exists_halt_le (P := fun _ => True) (potential types g)
    (fun _ _ _ _ => trivial) (fun _ _ _ hnext => potential_next hnext) (s := start n) trivial
  exact ⟨k, hk.trans (potential_start hf), hhalt⟩

end Placement

/-! ## How slots change -/

/-- The changes of a slot in one turn: a node is entered or rejected when it is unvisited, a cycle
is recorded while it is active, and compiling it settles it. -/
inductive SlotState.Moves : SlotState → SlotState → Prop
  | stay (s : SlotState) : Moves s s
  | enter : Moves unvisited (active [])
  | reject (outcome : Outcome) : Moves unvisited (done outcome)
  | record (cycles : List Diagnostic) (d : Diagnostic) :
    Moves (active cycles) (active (cycles ++ [d]))
  | settle (cycles : List Diagnostic) (outcome : Outcome) : Moves (active cycles) (done outcome)

theorem Walk.moves_of_set {w w' : Walk} {id n : NodeId} {s s' t : SlotState}
    (h : w.state? id = some s) (hset : ∀ n, w'.state? n = if n = id then some s' else w.state? n)
    (hmove : s.Moves s') (hn : w.state? n = some t) : ∃ t', w'.state? n = some t' ∧ t.Moves t' := by
  rw [hset n]
  by_cases hid : n = id
  · rw [if_pos hid]
    subst hid
    obtain rfl : s = t := Option.some.inj (h.symm.trans hn)
    exact ⟨s', rfl, hmove⟩
  · rw [if_neg hid]
    exact ⟨t, hn, .stay t⟩

namespace Position

variable {types : Catalogue} {g : Graph}

theorem Tracked.moves {p q : Position} (h : Tracked types g p) (hstep : Step types g p q)
    {n : NodeId} {s : SlotState} (hn : p.walk.state? n = some s) :
    ∃ s', q.walk.state? n = some s' ∧ s.Moves s' := by
  cases hstep with
  | skip => exact ⟨s, hn, .stay s⟩
  | close _ hactive =>
    exact Walk.moves_of_set hactive (Walk.state?_recordCycle _ _ _) (.record _ _) hn
  | reject _ hstate => exact Walk.moves_of_set hstate (Walk.state?_reject _ _ _) (.reject _) hn
  | descend _ hstate => exact Walk.moves_of_set hstate (Walk.state?_descend _ _) .enter hn
  | leave =>
    obtain ⟨cycles, hactive⟩ := h.exists_active
    rw [Walk.leave_eq hactive]
    exact Walk.moves_of_set hactive (Walk.state?_settle _ _ _) (.settle _ _) hn

/-- Slots that have been visited belong to nodes that have been entered. -/
theorem Reached.mem_entered {p : Position} (h : p.Reached types g) :
    ∀ n s, p.walk.state? n = some s → s ≠ .unvisited → n ∈ p.walk.entered := by
  refine h.induction (P := fun p =>
    ∀ n s, p.walk.state? n = some s → s ≠ .unvisited → n ∈ p.walk.entered) ?_ ?_
  · intro n s hs hne
    exact absurd (Walk.state?_start hs) hne
  · intro p q hreached ih hstep n s hs hne
    have hkeep (hold : p.walk.state? n = some s) : n ∈ q.walk.entered :=
      (hreached.tracked.entered_sublist hstep).subset (ih n s hold hne)
    cases hstep with
    | skip => exact hkeep hs
    | @close frames rest w id cycles hasks hactive =>
      rw [Walk.entered_recordCycle]
      rw [Walk.state?_recordCycle] at hs
      split at hs
      · next hn => exact hn ▸ ih id _ hactive SlotState.noConfusion
      · exact ih n s hs hne
    | @reject frames rest w id problem =>
      rw [Walk.state?_reject] at hs
      split at hs
      · next hn =>
        rw [Walk.entered_reject, hn]
        exact List.mem_append_right _ (List.mem_singleton_self id)
      · exact hkeep hs
    | @descend frames rest w id =>
      rw [Walk.state?_descend] at hs
      split at hs
      · next hn =>
        rw [Walk.entered_descend, hn]
        exact List.mem_append_right _ (List.mem_singleton_self id)
      · exact hkeep hs
    | @leave frame rest w =>
      obtain ⟨cycles, hactive⟩ := hreached.tracked.exists_active
      rw [Walk.leave_eq hactive] at hs ⊢
      rw [Walk.state?_settle] at hs
      split at hs
      · next hn =>
        rw [hn]
        exact ih frame.node.id _ hactive SlotState.noConfusion
      · exact ih n s hs hne

end Position

namespace Walk

theorem count_nodeEntered (w : Walk) (n : NodeId) :
    w.events.count (.nodeEntered n) = w.entered.count n := by
  unfold entered
  rw [← List.count_reverse]
  induction w.events.reverse with
  | nil => rfl
  | cons e es ih =>
    rw [List.count_cons, ih, List.filterMap_cons]
    cases e <;> simp [Event.entered?, List.count_cons]

theorem count_nodeEntered_le {types : Catalogue} {g : Graph} {p : Position}
    (h : p.Reached types g) (n : NodeId) : p.walk.events.count (.nodeEntered n) ≤ 1 := by
  rw [count_nodeEntered]
  exact List.nodup_iff_count_le_one.1 h.reporting.nodup n

/-- The compilation of a node is announced once, when the walk comes to its slot. -/
theorem count_nodeEntered_eq {types : Catalogue} {g : Graph} {p : Position}
    (h : p.Reached types g) {n : NodeId} {s : SlotState} (hs : p.walk.state? n = some s) :
    p.walk.events.count (.nodeEntered n) = if s.isUnvisited then 0 else 1 := by
  rw [count_nodeEntered]
  split
  · next hun =>
    rw [isUnvisited_iff] at hun
    refine List.count_eq_zero.2 fun hmem => ?_
    exact h.reporting.visited n hmem (hun ▸ hs)
  · next hun =>
    rw [isUnvisited_iff] at hun
    exact List.count_eq_one_of_mem h.reporting.nodup (h.mem_entered n s hs hun)

end Walk

namespace Stage

variable {types : Catalogue} {g : Graph} {k k' : Nat}

theorem stageAt_of_halted (h : (stageAt types g k).next? types g = none) (hle : k ≤ k') :
    stageAt types g k' = stageAt types g k := by
  induction k', hle using Nat.le_induction with
  | base => rfl
  | succ k' _ ih =>
    rw [stageAt_succ, ih]
    exact turn_eq_self h

/-- What every step keeps holds from some turn on. -/
theorem persists {P : Position → Prop}
    (hkeep : ∀ p q, p.Tracked types g → Step types g p q → P p → P q) (hle : k ≤ k')
    (h : P (stageAt types g k).toPosition) : P (stageAt types g k').toPosition := by
  induction k', hle using Nat.le_induction with
  | base => exact h
  | succ k' _ ih =>
    rcases step_stageAt types g k' with hstep | hsame
    · exact hkeep _ _ (tracked_stageAt types g k') hstep ih
    · exact hsame ▸ ih

theorem done_persists (hle : k ≤ k') {n : NodeId} {o : Outcome}
    (h : (stageAt types g k).walk.state? n = some (.done o)) :
    (stageAt types g k').walk.state? n = some (.done o) :=
  persists (P := fun p => p.walk.state? n = some (.done o))
    (fun _ _ hp hstep hdone => hp.done_of_step hstep hdone) hle h

/-- What is seen of a node is what is seen of it in the end. -/
theorem value?_walk {m : NodeId} (h : ((stageAt types g k).walk.outcome? m).isSome) :
    ((stageAt types g k).walk.outcome? m).map Checked.value? =
      ((ShaderNodes.walk types g).outcome? m).map Checked.value? := by
  obtain ⟨o, ho⟩ := Option.isSome_iff_exists.1 h
  obtain ⟨k', -, hhalt⟩ := exists_halt types g
  have hkeep : ∀ p q : Position, p.Tracked types g → Step types g p q →
      (p.walk.outcome? m).map Checked.value? = some o.value? →
      (q.walk.outcome? m).map Checked.value? = some o.value? := by
    intro p q hp hstep hshown
    have hsome : (p.walk.outcome? m).isSome := by
      rw [← Option.isSome_map, hshown]
      rfl
    rw [hp.shows hstep m hsome, hshown]
  have hmax : (stageAt types g (max k k')).walk = ShaderNodes.walk types g := by
    rw [stageAt_of_halted hhalt (Nat.le_max_right k k'), walk_eq hhalt]
  have hshown := persists (P := fun p => (p.walk.outcome? m).map Checked.value? = some o.value?)
    hkeep (Nat.le_max_left k k') (by rw [ho]; rfl)
  rw [hmax] at hshown
  rw [hshown, ho]
  rfl

theorem visited_persists (hle : k ≤ k') {n : NodeId}
    (h : (stageAt types g k).walk.state? n ≠ some .unvisited) :
    (stageAt types g k').walk.state? n ≠ some .unvisited :=
  persists (P := fun p => p.walk.state? n ≠ some .unvisited)
    (fun _ _ _ hstep hvisited => Walk.visited_of_step hstep hvisited) hle h

theorem moves_stageAt (types : Catalogue) (g : Graph) (k : Nat) {n : NodeId} {s : SlotState}
    (h : (stageAt types g k).walk.state? n = some s) :
    ∃ s', (stageAt types g (k + 1)).walk.state? n = some s' ∧ s.Moves s' := by
  rcases step_stageAt types g k with hstep | hsame
  · exact (tracked_stageAt types g k).moves hstep h
  · exact ⟨s, hsame ▸ h, .stay s⟩

/-- A turn that asks for a node leaves it visited. -/
theorem visited_of_asks? {n : NodeId} (h : (stageAt types g k).asks? = some n) :
    (stageAt types g (k + 1)).walk.state? n ≠ some .unvisited := by
  obtain ⟨t, hnext, hwalk⟩ := next?_of_asks? types g h
  rw [stageAt_succ, turn_eq hnext, hwalk]
  exact Walk.enter_visited types g _ n

/-- The node that a turn compiles is active before it and settled after it. -/
theorem of_compiles?_stageAt {frame : Frame} (h : (stageAt types g k).compiles? = some frame) :
    (∃ cycles, (stageAt types g k).walk.state? frame.node.id = some (.active cycles)) ∧
      ∃ o, (stageAt types g (k + 1)).walk.state? frame.node.id = some (.done o) := by
  obtain ⟨-, rest, hframes, hnext⟩ := of_compiles? types g h
  have htracked := tracked_stageAt types g k
  have hmem : frame.node.id ∈ (stageAt types g k).walk.path := by
    rw [htracked.path, hframes]
    exact List.mem_cons_self
  obtain ⟨cycles, hactive⟩ := (htracked.active _).1 hmem
  refine ⟨⟨cycles, hactive⟩, ?_⟩
  rw [stageAt_succ, turn_eq hnext, Walk.leave_eq hactive]
  exact ⟨_, (Walk.state?_settle ..).trans (if_pos rfl)⟩

/-- The walk comes to an unvisited slot once. -/
theorem entered_once {n : NodeId} (hask : (stageAt types g k).asks? = some n)
    (hstate' : (stageAt types g k').walk.state? n = some .unvisited) : k' ≤ k := by
  by_contra hlt
  exact visited_persists (Nat.lt_of_not_le hlt) (visited_of_asks? hask) hstate'

/-- No node is compiled twice. -/
theorem compiled_once {frame frame' : Frame} (h : (stageAt types g k).compiles? = some frame)
    (h' : (stageAt types g k').compiles? = some frame') (hnode : frame.node.id = frame'.node.id) :
    k' ≤ k := by
  by_contra hlt
  obtain ⟨-, o, hdone⟩ := of_compiles?_stageAt h
  obtain ⟨⟨cycles, hactive⟩, -⟩ := of_compiles?_stageAt h'
  have hstill := done_persists (Nat.lt_of_not_le hlt) hdone
  rw [hnode, hactive] at hstill
  cases hstill

end Stage

/-! ## Previews and events -/

namespace Graph

theorem keys_compile (types : Catalogue) (env : Envelope) (g : Graph) :
    (g.compile types env).value.map Prod.fst = g.nodes.keys := by
  unfold compile
  rw [List.map_map]
  exact List.map_id _

theorem count_nodeEntered_compile (types : Catalogue) (env : Envelope) (g : Graph) (n : NodeId) :
    (g.compile types env).events.count (.nodeEntered n) =
      (walk types g).events.count (.nodeEntered n) := by
  simp [compile, List.count_append]

end Graph

/-- **Compiling ends.** Whatever the joints of a graph are, both loops come to an end within a
number of turns that the size of the graph bounds, and give what `walk` and `Walk.order` give. There
is one preview for each placed node, in the order of the graph. While the walk goes on, the slots
stay the same and each of them only moves on. No slot is entered twice as unvisited, and one trace
tells of it; no node is compiled twice; and no outcome changes once it is there. -/
theorem compile_terminates (types : Catalogue) (env : Envelope) (g : Graph) :
    (∃ k ≤ 2 * g.nodes.size + g.joints.size,
      (stageAt types g k).next? types g = none ∧ (stageAt types g k).walk = walk types g) ∧
    (∀ n f, (walk types g).fragment? n = some f →
      ∃ k ≤ g.nodes.size + g.unplacedSources.length + g.joints.size,
        (placementAt (walk types g) n k).next? (walk types g) = none ∧
        (placementAt (walk types g) n k).placed.reverse = (walk types g).order n) ∧
    ((g.compile types env).value.map Prod.fst = g.nodes.keys ∧ g.nodes.keys.Nodup) ∧
    (∀ k, (stageAt types g k).walk.slots.keys = (Walk.start g).slots.keys) ∧
    (∀ k n s, (stageAt types g k).walk.state? n = some s →
      ∃ s', (stageAt types g (k + 1)).walk.state? n = some s' ∧ s.Moves s') ∧
    (∀ k k' n,
      (stageAt types g k).asks? = some n → (stageAt types g k).walk.state? n = some .unvisited →
      (stageAt types g k').asks? = some n → (stageAt types g k').walk.state? n = some .unvisited →
      k = k') ∧
    (∀ k n s, (stageAt types g k).walk.state? n = some s →
      (stageAt types g k).walk.events.count (.nodeEntered n) = if s.isUnvisited then 0 else 1) ∧
    (∀ n, (g.compile types env).events.count (.nodeEntered n) ≤ 1 ∧
      (n ∈ g.nodes.keys → (g.compile types env).events.count (.nodeEntered n) = 1) ∧
      (Event.nodeEntered n).severity = .trace ∧
      (Event.nodeEntered n).message = "compiling node " ++ n.text) ∧
    (∀ k k' frame frame', (stageAt types g k).compiles? = some frame →
      (stageAt types g k').compiles? = some frame' → frame.node.id = frame'.node.id → k = k') ∧
    ∀ k k' n o, k ≤ k' → (stageAt types g k).walk.state? n = some (.done o) →
      (stageAt types g k').walk.state? n = some (.done o) := by
  refine ⟨?_, ?_, ⟨g.keys_compile types env, g.nodes.keys_nodup⟩, ?_, ?_, ?_, ?_, ?_, ?_, ?_⟩
  · obtain ⟨k, hk, hhalt⟩ := Stage.exists_halt types g
    exact ⟨k, hk, hhalt, Stage.walk_eq hhalt⟩
  · intro n f hf
    obtain ⟨k, hk, hhalt⟩ := Placement.exists_halt hf
    exact ⟨k, hk, hhalt, Placement.order_eq hhalt⟩
  · exact fun k => (Stage.tracked_stageAt types g k).keys
  · exact fun k n s => Stage.moves_stageAt types g k
  · intro k k' n hask hstate hask' hstate'
    exact Nat.le_antisymm (Stage.entered_once hask' hstate) (Stage.entered_once hask hstate')
  · exact fun k n s => Walk.count_nodeEntered_eq (Stage.reached_stageAt types g k).position
  · intro n
    have hreached := Walk.reached_walk types g
    rw [Graph.count_nodeEntered_compile]
    refine ⟨Walk.count_nodeEntered_le hreached n, fun hn => ?_, rfl, rfl⟩
    obtain ⟨o, hdone⟩ := Walk.exists_done types hn
    exact Walk.count_nodeEntered_eq hreached hdone
  · intro k k' frame frame' h h' hnode
    exact Nat.le_antisymm (Stage.compiled_once h' h hnode.symm) (Stage.compiled_once h h' hnode)
  · exact fun k k' n o hle hdone => Stage.done_persists hle hdone

end ShaderNodes
