import ShaderNodes.Proofs.Fragments
import ShaderNodes.Proofs.WalkSteps

/-!
# What holds at every position of the walk

The path of a walk lists the nodes of its frames, and these are exactly the active ones. Whatever a
frame has visited has an outcome for others to see, if only a recorded cycle. What others see of a
node never changes once it is there: a fragment stays the same fragment, a failure stays a failure.

* `Walk.reports`, `Walk.entered`, `Walk.recorded`: what the events tell of a walk;
* `Position.Tracked`: path, slots and frames agree;
* `Position.Tracked.shows`: what is seen of a node stays the same.
-/

namespace ShaderNodes

open Relation

/-! ## Reports -/

/-- The nodes along the cycle that an event reports. -/
def Event.cycle? : Event → Option (List NodeId)
  | cycleDetected path => some path
  | _ => none

/-- The node whose compilation begins with an event. -/
def Event.entered? : Event → Option NodeId
  | nodeEntered node => some node
  | _ => none

namespace Walk

/-- The cycles that have been reported, in order. -/
def reports (w : Walk) : List (List NodeId) := w.events.reverse.filterMap Event.cycle?

/-- The nodes that have been entered, in order. -/
def entered (w : Walk) : List NodeId := w.events.reverse.filterMap Event.entered?

/-- The cycles that have been recorded against a node, in order. -/
def recorded (w : Walk) (n : NodeId) : List Diagnostic :=
  (w.reports.filter fun path => path.head? = some n).map fun path => ⟨n, .cycle path⟩

theorem reports_emit (w : Walk) (e : Event) :
    (w.emit e).reports = w.reports ++ e.cycle?.toList := by
  unfold reports emit
  rw [List.reverse_cons, List.filterMap_append]
  cases h : e.cycle? <;> simp [h]

theorem entered_emit (w : Walk) (e : Event) :
    (w.emit e).entered = w.entered ++ e.entered?.toList := by
  unfold entered emit
  rw [List.reverse_cons, List.filterMap_append]
  cases h : e.entered? <;> simp [h]

theorem reports_recordCycle (w : Walk) (id : NodeId) (cycles : List Diagnostic) :
    (w.recordCycle id cycles).reports = w.reports ++ [w.cycleAt id] :=
  reports_emit w (.cycleDetected (w.cycleAt id))

theorem entered_recordCycle (w : Walk) (id : NodeId) (cycles : List Diagnostic) :
    (w.recordCycle id cycles).entered = w.entered :=
  (entered_emit w (.cycleDetected (w.cycleAt id))).trans (List.append_nil _)

theorem reports_reject (w : Walk) (id : NodeId) (problem : Problem) :
    (w.reject id problem).reports = w.reports :=
  (reports_emit w (.nodeEntered id)).trans (List.append_nil _)

theorem entered_reject (w : Walk) (id : NodeId) (problem : Problem) :
    (w.reject id problem).entered = w.entered ++ [id] :=
  entered_emit w (.nodeEntered id)

theorem reports_descend (w : Walk) (id : NodeId) : (w.descend id).reports = w.reports :=
  (reports_emit w (.nodeEntered id)).trans (List.append_nil _)

theorem entered_descend (w : Walk) (id : NodeId) : (w.descend id).entered = w.entered ++ [id] :=
  entered_emit w (.nodeEntered id)

theorem recorded_congr {w w' : Walk} (h : w'.reports = w.reports) (n : NodeId) :
    w'.recorded n = w.recorded n := by
  unfold recorded
  rw [h]

/-- The cycle that is closed at a node of the path goes from there to the innermost node. -/
theorem exists_cycleAt_eq {w : Walk} {id : NodeId} (h : id ∈ w.path) :
    ∃ outer inner, w.path.reverse = outer ++ id :: inner ∧ id ∉ outer ∧
      w.cycleAt id = (id :: inner) ++ [id] := by
  cases hindex : w.path.reverse.idxOf? id with
  | none => exact absurd (List.mem_reverse.2 h) (List.idxOf?_eq_none_iff.1 hindex)
  | some i =>
    obtain ⟨hlt, hid, hfirst⟩ := List.idxOf?_eq_some_iff.1 hindex
    have hdrop : w.path.reverse.drop i = id :: w.path.reverse.drop (i + 1) := by
      rw [List.drop_eq_getElem_cons hlt, hid]
    refine ⟨w.path.reverse.take i, w.path.reverse.drop (i + 1), ?_, fun hmem => ?_, ?_⟩
    · rw [← hdrop, List.take_append_drop]
    · obtain ⟨j, hj, hget⟩ := List.mem_take_iff_getElem.1 hmem
      exact hfirst j (by omega) hget
    · unfold cycleAt
      rw [hindex, Option.getD_some, hdrop]

theorem head?_cycleAt {w : Walk} {id : NodeId} (h : id ∈ w.path) :
    (w.cycleAt id).head? = some id := by
  obtain ⟨outer, inner, -, -, hcycle⟩ := exists_cycleAt_eq h
  rw [hcycle]
  rfl

theorem recorded_recordCycle {w : Walk} {id : NodeId} (h : id ∈ w.path) (cycles : List Diagnostic)
    (n : NodeId) :
    (w.recordCycle id cycles).recorded n =
      if n = id then w.recorded id ++ [⟨id, .cycle (w.cycleAt id)⟩] else w.recorded n := by
  unfold recorded
  rw [reports_recordCycle, List.filter_append, List.map_append]
  split
  · next hn =>
    subst hn
    simp [head?_cycleAt h]
  · next hn => simp [head?_cycleAt h, Ne.symm hn]

/-! ## What is seen of a node -/

/-- What `w` shows of a node, `w'` shows too: the same fragment, or that the node has failed. -/
def Shows (w w' : Walk) : Prop :=
  ∀ n, (w.outcome? n).isSome →
    (w'.outcome? n).map Checked.value? = (w.outcome? n).map Checked.value?

theorem Shows.refl (w : Walk) : Shows w w := fun _ _ => rfl

theorem Shows.isSome {w w' : Walk} (h : Shows w w') {n : NodeId} (hn : (w.outcome? n).isSome) :
    (w'.outcome? n).isSome := by
  have hsame := congrArg Option.isSome (h n hn)
  rwa [Option.isSome_map, Option.isSome_map, hn] at hsame

/-- Changing a slot keeps what is shown if nothing was shown of its node, or the same is. -/
theorem shows_set {w w' : Walk} {id : NodeId} {s s' : SlotState} (h : w.state? id = some s)
    (hset : ∀ n, w'.state? n = if n = id then some s' else w.state? n)
    (hshow : s.outcome?.isSome →
      s'.outcome?.map Checked.value? = s.outcome?.map Checked.value?) : Shows w w' := by
  intro n hn
  have hstate := hset n
  by_cases hid : n = id
  · subst hid
    rw [if_pos rfl] at hstate
    rw [outcome?_eq h] at hn ⊢
    rw [outcome?_eq hstate]
    exact hshow hn
  · rw [if_neg hid] at hstate
    unfold outcome?
    rw [hstate]

end Walk

/-! ## Path, slots and frames -/

/-- The frame is that of a placed node of a known type, whatever is still to be visited. -/
structure Frame.Fits (types : Catalogue) (g : Graph) (frame : Frame) : Prop where
  typed : g.Typed types frame.node.id frame.node frame.type
  joints : frame.joints = g.jointsInto frame.node.id
  dependencies : frame.dependencies = g.dependencies frame.type frame.node.id

/-- What each frame has visited can be seen; `above` is the node that it is visiting. -/
def Stacked (w : Walk) : Option NodeId → List Frame → Prop
  | _, [] => True
  | above, frame :: rest =>
    (∃ visited, frame.dependencies = visited ++ above.toList ++ frame.pending ∧
      ∀ d ∈ visited, (w.outcome? d).isSome) ∧
    Stacked w (some frame.node.id) rest

namespace Stacked

theorem mono {w w' : Walk} (hshow : w.Shows w') {above : Option NodeId} {frames : List Frame}
    (h : Stacked w above frames) : Stacked w' above frames := by
  induction frames generalizing above with
  | nil => trivial
  | cons frame rest ih =>
    obtain ⟨⟨visited, hdeps, hvisited⟩, hrest⟩ := h
    exact ⟨⟨visited, hdeps, fun d hd => hshow.isSome (hvisited d hd)⟩, ih hrest⟩

/-- The node that was being visited can be seen now. -/
theorem settle {w : Walk} {id : NodeId} {frames : List Frame} (h : Stacked w (some id) frames)
    (hid : (w.outcome? id).isSome) : Stacked w none frames := by
  cases frames with
  | nil => trivial
  | cons frame rest =>
    obtain ⟨⟨visited, hdeps, hvisited⟩, hrest⟩ := h
    refine ⟨⟨visited ++ [id], by simpa using hdeps, fun d hd => ?_⟩, hrest⟩
    rcases List.mem_append.1 hd with hd | hd
    · exact hvisited d hd
    · rwa [List.mem_singleton.1 hd]

end Stacked

namespace Asks

variable {g : Graph} {frames rest : List Frame} {id : NodeId}

theorem map_node (h : Asks g frames id rest) :
    rest.map (fun f => f.node.id) = frames.map fun f => f.node.id := by
  cases h <;> rfl

theorem fits {types : Catalogue} (h : Asks g frames id rest)
    (hframes : ∀ f ∈ frames, f.Fits types g) : ∀ f ∈ rest, f.Fits types g := by
  cases h with
  | root => exact hframes
  | pending h rest =>
    intro f hf
    rcases List.mem_cons.1 hf with rfl | hf
    · obtain ⟨htyped, hjoints, hdeps⟩ := hframes _ List.mem_cons_self
      exact ⟨htyped, hjoints, hdeps⟩
    · exact hframes f (List.mem_cons_of_mem _ hf)

theorem stacked {w : Walk} (h : Asks g frames id rest) (hstacked : Stacked w none frames) :
    Stacked w (some id) rest := by
  cases h with
  | root => trivial
  | pending h rest =>
    obtain ⟨⟨visited, hdeps, hvisited⟩, hrest⟩ := hstacked
    exact ⟨⟨visited, by simpa [h] using hdeps, hvisited⟩, hrest⟩

/-- A node that is asked for is placed or feeds the node of the innermost frame. -/
theorem mem_keys_or_feeds {types : Catalogue} {w : Walk} (h : Asks g frames id rest)
    (hframes : ∀ f ∈ frames, f.Fits types g) (hstacked : Stacked w none frames) :
    id ∈ g.nodes.keys ∨ ∃ n, g.Feeds id n := by
  cases h with
  | root h => exact Or.inl h
  | @pending frame id pending h rest =>
    obtain ⟨⟨visited, hdeps, -⟩, -⟩ := hstacked
    have hmem : id ∈ frame.dependencies := by simp [hdeps, h]
    rw [(hframes _ List.mem_cons_self).dependencies] at hmem
    exact Or.inr ⟨_, Graph.mem_dependencies.1 hmem⟩

end Asks

/-- Path, slots and frames agree. -/
structure Position.Tracked (types : Catalogue) (g : Graph) (p : Position) : Prop where
  keys : p.walk.slots.keys = (Walk.start g).slots.keys
  path : p.walk.path = p.frames.map fun f => f.node.id
  nodup : p.walk.path.Nodup
  active : ∀ n, n ∈ p.walk.path ↔ ∃ cycles, p.walk.state? n = some (.active cycles)
  frames : ∀ f ∈ p.frames, f.Fits types g
  stacked : Stacked p.walk none p.frames

namespace Walk

theorem mem_keys_start {g : Graph} {n : NodeId} :
    n ∈ (start g).slots.keys ↔ n ∈ g.nodes.keys ∨ ∃ m, g.Feeds n m := by
  unfold start
  simp only [Roster.mem_keys_ofList, List.mem_map, List.mem_append]
  constructor
  · rintro ⟨slot, ⟨id, hid, rfl⟩, rfl⟩
    rcases hid with hid | ⟨j, hj, rfl⟩
    · exact Or.inl hid
    · exact Or.inr ⟨_, j, hj, rfl, rfl⟩
  · rintro (h | ⟨m, j, hj, rfl, -⟩)
    · exact ⟨⟨n, .unvisited⟩, ⟨n, Or.inl h, rfl⟩, rfl⟩
    · exact ⟨⟨_, .unvisited⟩, ⟨_, Or.inr ⟨j, hj, rfl⟩, rfl⟩, rfl⟩

theorem state?_start {g : Graph} {n : NodeId} {s : SlotState} (h : (start g).state? n = some s) :
    s = .unvisited := by
  obtain ⟨slot, hslot, rfl⟩ := Option.map_eq_some_iff.1 h
  obtain ⟨id, -, rfl⟩ := List.mem_map.1 (Roster.mem_of_mem_ofList (Roster.mem_of_get? hslot).1)
  rfl

end Walk

namespace Position.Tracked

variable {types : Catalogue} {g : Graph}

theorem start (types : Catalogue) (g : Graph) : Tracked types g ⟨[], .start g⟩ where
  keys := rfl
  path := rfl
  nodup := List.nodup_nil
  active n := by
    refine ⟨fun h => absurd h List.not_mem_nil, ?_⟩
    rintro ⟨cycles, h⟩
    cases Walk.state?_start h
  frames _ h := absurd h List.not_mem_nil
  stacked := trivial

/-- Every node that is asked for has a slot. -/
theorem exists_state {p : Position} (h : Tracked types g p) {id : NodeId} {rest : List Frame}
    (hasks : Asks g p.frames id rest) : ∃ s, p.walk.state? id = some s := by
  rw [← Walk.mem_keys_iff_state?, h.keys, Walk.mem_keys_start]
  exact hasks.mem_keys_or_feeds h.frames h.stacked

theorem exists_active {frame : Frame} {rest : List Frame} {w : Walk}
    (h : Tracked types g ⟨frame :: rest, w⟩) :
    ∃ cycles, w.state? frame.node.id = some (.active cycles) :=
  (h.active _).1 (h.path ▸ List.mem_cons_self)

/-- When nothing is left to visit in front of a node, all that feed it can be seen. -/
theorem isSome_of_feeds {frame : Frame} {rest : List Frame} {w : Walk}
    (h : Tracked types g ⟨frame :: rest, w⟩) (hpending : frame.pending = []) {m : NodeId}
    (hm : g.Feeds m frame.node.id) : (w.outcome? m).isSome := by
  obtain ⟨⟨visited, hdeps, hvisited⟩, -⟩ := h.stacked
  have hmem : m ∈ frame.dependencies :=
    (h.frames frame List.mem_cons_self).dependencies ▸ Graph.mem_dependencies.2 hm
  exact hvisited m (by simpa [hdeps, hpending] using hmem)

/-! ### What a step shows -/

theorem shows {p q : Position} (h : Tracked types g p) (hstep : Step types g p q) :
    p.walk.Shows q.walk := by
  cases hstep with
  | skip => exact .refl _
  | @close frames rest w id cycles hasks hactive =>
    refine Walk.shows_set hactive (Walk.state?_recordCycle w id cycles) fun hsome => ?_
    -- An active node is seen only once a cycle has been recorded, and then as failed.
    have hne : cycles ≠ [] := by
      rintro rfl
      cases hsome
    rw [SlotState.outcome?_active hne, SlotState.outcome?_active (by simp)]
    rfl
  | @reject frames rest w id problem hasks hstate _ =>
    exact Walk.shows_set hstate (Walk.state?_reject w id problem) fun hsome => by cases hsome
  | @descend frames rest w id node type hasks hstate _ =>
    exact Walk.shows_set hstate (Walk.state?_descend w id) fun hsome => by cases hsome
  | @leave frame rest w hpending =>
    obtain ⟨cycles, hactive⟩ := h.exists_active
    rw [Walk.leave_eq hactive]
    refine Walk.shows_set hactive (Walk.state?_settle w frame.node.id _) fun hsome => ?_
    have hne : cycles ≠ [] := by
      rintro rfl
      cases hsome
    rw [SlotState.outcome?_active hne, Outcome.blockedBy_of_ne_nil hne]
    rfl

/-- A settled node keeps its outcome. -/
theorem done_of_step {p q : Position} (h : Tracked types g p) (hstep : Step types g p q)
    {n : NodeId} {o : Outcome} (hn : p.walk.state? n = some (.done o)) :
    q.walk.state? n = some (.done o) := by
  have hother {id : NodeId} {s : SlotState} (hs : p.walk.state? id = some s)
      (hne : ∀ o, s ≠ .done o) : n ≠ id := by
    rintro rfl
    exact hne o (Option.some.inj (hs.symm.trans hn))
  cases hstep with
  | skip => exact hn
  | close _ hactive =>
    rwa [Walk.state?_recordCycle, if_neg (hother hactive fun _ he => by cases he)]
  | reject _ hstate => rwa [Walk.state?_reject, if_neg (hother hstate fun _ he => by cases he)]
  | descend _ hstate => rwa [Walk.state?_descend, if_neg (hother hstate fun _ he => by cases he)]
  | leave =>
    obtain ⟨cycles, hactive⟩ := h.exists_active
    rwa [Walk.leave_eq hactive, Walk.state?_settle,
      if_neg (hother hactive fun _ he => by cases he)]

/-! ### Steps keep path, slots and frames together -/

theorem step_skip {frames rest : List Frame} {w : Walk} {id : NodeId}
    (h : Tracked types g ⟨frames, w⟩) (hasks : Asks g frames id rest)
    (hdone : ∀ s, w.state? id = some s → ∃ o, s = .done o) : Tracked types g ⟨rest, w⟩ where
  keys := h.keys
  path := h.path.trans hasks.map_node.symm
  nodup := h.nodup
  active := h.active
  frames := hasks.fits h.frames
  stacked := by
    obtain ⟨s, hs⟩ := h.exists_state hasks
    obtain ⟨o, rfl⟩ := hdone s hs
    refine (hasks.stacked h.stacked).settle ?_
    rw [Walk.outcome?_of_done hs]
    rfl

theorem step_close {frames rest : List Frame} {w : Walk} {id : NodeId}
    {cycles : List Diagnostic} (h : Tracked types g ⟨frames, w⟩) (hasks : Asks g frames id rest)
    (hactive : w.state? id = some (.active cycles)) :
    Tracked types g ⟨rest, w.recordCycle id cycles⟩ where
  keys := by
    rw [← h.keys]
    exact Walk.keys_set (w := w.emit _) hactive
  path := h.path.trans hasks.map_node.symm
  nodup := h.nodup
  active n := by
    refine (h.active n).trans ?_
    rw [Walk.state?_recordCycle]
    split
    · next hn =>
      subst hn
      exact ⟨fun _ => ⟨_, rfl⟩, fun _ => ⟨_, hactive⟩⟩
    · exact Iff.rfl
  frames := hasks.fits h.frames
  stacked := by
    have hstate := Walk.state?_recordCycle w id cycles id
    rw [if_pos rfl] at hstate
    refine ((hasks.stacked h.stacked).mono (h.shows (.close hasks hactive))).settle ?_
    rw [Walk.outcome?_eq hstate, SlotState.outcome?_active (by simp)]
    rfl

theorem step_reject {frames rest : List Frame} {w : Walk} {id : NodeId} {problem : Problem}
    (h : Tracked types g ⟨frames, w⟩) (hasks : Asks g frames id rest)
    (hstate : w.state? id = some .unvisited) (hreject : Rejected types g id problem) :
    Tracked types g ⟨rest, w.reject id problem⟩ where
  keys := by
    rw [← h.keys]
    exact Walk.keys_set (w := w.emit _) hstate
  path := h.path.trans hasks.map_node.symm
  nodup := h.nodup
  active n := by
    refine (h.active n).trans ?_
    rw [Walk.state?_reject]
    split
    · next hn =>
      subst hn
      rw [hstate]
      simp
    · exact Iff.rfl
  frames := hasks.fits h.frames
  stacked := by
    have hdone := Walk.state?_reject w id problem id
    rw [if_pos rfl] at hdone
    refine ((hasks.stacked h.stacked).mono (h.shows (.reject hasks hstate hreject))).settle ?_
    rw [Walk.outcome?_of_done hdone]
    rfl

theorem step_descend {frames rest : List Frame} {w : Walk} {id : NodeId} {node : Node}
    {type : NodeType} (h : Tracked types g ⟨frames, w⟩) (hasks : Asks g frames id rest)
    (hstate : w.state? id = some .unvisited) (htyped : g.Typed types id node type) :
    Tracked types g ⟨Frame.opening g node type :: rest, w.descend id⟩ where
  keys := by
    rw [← h.keys]
    exact Walk.keys_set (w := w.emit _) hstate
  path := by
    rw [List.map_cons, hasks.map_node]
    exact congrArg₂ List.cons htyped.id_eq.symm h.path
  nodup := by
    refine List.nodup_cons.2 ⟨fun hmem => ?_, h.nodup⟩
    obtain ⟨cycles, hactive⟩ := (h.active id).1 hmem
    rw [hstate] at hactive
    cases hactive
  active n := by
    rw [Walk.state?_descend, show (w.descend id).path = id :: w.path from rfl, List.mem_cons]
    split
    · next hn => exact ⟨fun _ => ⟨_, rfl⟩, fun _ => Or.inl hn⟩
    · next hn => exact ⟨fun hmem => (h.active n).1 (hmem.resolve_left hn),
        fun hactive => Or.inr ((h.active n).2 hactive)⟩
  frames f hf := by
    rcases List.mem_cons.1 hf with rfl | hf
    · obtain rfl := htyped.id_eq
      exact ⟨htyped, rfl, rfl⟩
    · exact hasks.fits h.frames f hf
  stacked := by
    obtain rfl := htyped.id_eq
    exact ⟨⟨[], rfl, fun d hd => absurd hd List.not_mem_nil⟩,
      (hasks.stacked h.stacked).mono (h.shows (.descend hasks hstate htyped))⟩

theorem step_leave {frame : Frame} {rest : List Frame} {w : Walk}
    (h : Tracked types g ⟨frame :: rest, w⟩) (hpending : frame.pending = []) :
    Tracked types g ⟨rest, w.leave frame⟩ := by
  obtain ⟨cycles, hactive⟩ := h.exists_active
  have hshow := h.shows (.leave hpending)
  have hpath : w.path = frame.node.id :: rest.map fun f => f.node.id := h.path
  have hnodup := List.nodup_cons.1 (hpath ▸ h.nodup)
  have htail : (w.settle frame.node.id ((frame.outcome w.outcome?).blockedBy cycles)).path =
      rest.map fun f => f.node.id := congrArg List.tail hpath
  rw [Walk.leave_eq hactive] at hshow ⊢
  refine ⟨(Walk.keys_set (w := { w with path := _ }) hactive).trans h.keys, htail, ?_, fun n => ?_,
    ?_, ?_⟩
  · exact htail ▸ hnodup.2
  · rw [Walk.state?_settle, htail]
    split
    · next hn =>
      subst hn
      exact ⟨fun hmem => absurd hmem hnodup.1, fun ⟨_, hdone⟩ => by cases hdone⟩
    · next hn =>
      rw [← h.active n, hpath, List.mem_cons]
      exact ⟨Or.inr, fun hmem => hmem.resolve_left hn⟩
  · exact fun f hf => h.frames f (List.mem_cons_of_mem _ hf)
  · have hdone := Walk.state?_settle w frame.node.id
      ((frame.outcome w.outcome?).blockedBy cycles) frame.node.id
    rw [if_pos rfl] at hdone
    refine (h.stacked.2.mono hshow).settle ?_
    rw [Walk.outcome?_of_done hdone]
    rfl

theorem step {p q : Position} (h : Tracked types g p) (hstep : Step types g p q) :
    Tracked types g q := by
  cases hstep with
  | skip hasks hdone => exact h.step_skip hasks hdone
  | close hasks hactive => exact h.step_close hasks hactive
  | reject hasks hstate hreject => exact h.step_reject hasks hstate hreject
  | descend hasks hstate htyped => exact h.step_descend hasks hstate htyped
  | leave hpending => exact h.step_leave hpending

end Position.Tracked

theorem Position.Reached.tracked {types : Catalogue} {g : Graph} {p : Position}
    (h : p.Reached types g) : p.Tracked types g :=
  h.induction (.start types g) fun _ _ _ hp hstep => hp.step hstep

end ShaderNodes
