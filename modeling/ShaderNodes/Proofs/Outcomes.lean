import Mathlib
import ShaderNodes.Proofs.WalkInvariant

/-!
# The outcomes of a walk

A node is compiled while some of the nodes in front of it may still be active. What it sees of them
is what will be seen of them in the end, so compiling it again after the walk gives the same result:
the outcomes of a walk are a fixpoint of compiling each node by the outcomes of all the others.

* `Walk.SlotOk`: each slot holds what compiling its node gives at the present position;
* `Walk.exists_done`: every placed node is settled in the end, and so is every node that feeds a
  known one;
* `walk_outcome_fixpoint`: the outcomes as a fixpoint.
-/

namespace ShaderNodes

/-! ## Compiling a node again -/

/-- What compiling a node gives when the outcomes of the nodes in front of it are looked up. -/
def Graph.outcomeOf (g : Graph) (node : Node) (type : NodeType)
    (lookup : NodeId → Option Outcome) : Outcome :=
  Fragment.compile node type (g.jointsInto node.id) (g.dependencies type node.id) lookup

theorem Frame.Fits.outcome_eq {types : Catalogue} {g : Graph} {frame : Frame}
    (h : frame.Fits types g) (lookup : NodeId → Option Outcome) :
    frame.outcome lookup = g.outcomeOf frame.node frame.type lookup := by
  unfold Frame.outcome Graph.outcomeOf
  rw [h.joints, h.dependencies]

/-- Once all nodes that feed a node can be seen, compiling it gives the same ever after. -/
theorem Walk.Shows.outcomeOf_eq {w w' : Walk} (hshow : w.Shows w') {g : Graph} {node : Node}
    (hfed : ∀ m, g.Feeds m node.id → (w.outcome? m).isSome) (type : NodeType) :
    g.outcomeOf node type w'.outcome? = g.outcomeOf node type w.outcome? := by
  refine Fragment.compile_congr fun j hj => ?_
  obtain ⟨hmem, hdest⟩ := Graph.mem_jointsInto.1 hj
  exact hshow _ (hfed _ ⟨j, hmem, rfl, hdest⟩)

namespace Walk

/-- A slot holds what is right for its node at the present position. -/
inductive SlotOk (types : Catalogue) (g : Graph) (w : Walk) (n : NodeId) : SlotState → Prop
  | unvisited (hrecorded : w.recorded n = []) : SlotOk types g w n .unvisited
  | active {cycles : List Diagnostic} (hrecorded : cycles = w.recorded n) :
    SlotOk types g w n (.active cycles)
  | rejected {o : Outcome} {problem : Problem} (hreject : Rejected types g n problem)
    (hrecorded : w.recorded n = []) (ho : o = .error [⟨n, problem⟩]) : SlotOk types g w n (.done o)
  | compiled {o : Outcome} {node : Node} {type : NodeType} (htyped : g.Typed types n node type)
    (hfed : ∀ m, g.Feeds m n → (w.outcome? m).isSome)
    (ho : o = (g.outcomeOf node type w.outcome?).blockedBy (w.recorded n)) :
    SlotOk types g w n (.done o)

namespace SlotOk

variable {types : Catalogue} {g : Graph}

theorem mono {w w' : Walk} {n : NodeId} {s : SlotState} (h : SlotOk types g w n s)
    (hshow : w.Shows w') (hrecorded : w'.recorded n = w.recorded n) : SlotOk types g w' n s := by
  cases h with
  | unvisited h => exact .unvisited (hrecorded.trans h)
  | active h => exact .active (h.trans hrecorded.symm)
  | rejected hreject h ho => exact .rejected hreject (hrecorded.trans h) ho
  | @compiled o node type htyped hfed ho =>
    refine .compiled htyped (fun m hm => hshow.isSome (hfed m hm)) ?_
    obtain rfl := htyped.id_eq
    rw [ho, hshow.outcomeOf_eq hfed, hrecorded]

theorem of_unvisited {w : Walk} {n : NodeId} (h : SlotOk types g w n .unvisited) :
    w.recorded n = [] := by
  cases h with
  | unvisited h => exact h

theorem of_active {w : Walk} {n : NodeId} {cycles : List Diagnostic}
    (h : SlotOk types g w n (.active cycles)) : cycles = w.recorded n := by
  cases h with
  | active h => exact h

/-- If one slot is changed and the new state is right, all slots are right. -/
theorem all_of_set {w w' : Walk} {id : NodeId} {s' : SlotState}
    (h : ∀ n s, w.state? n = some s → SlotOk types g w n s) (hshow : w.Shows w')
    (hset : ∀ n, w'.state? n = if n = id then some s' else w.state? n)
    (hrecorded : ∀ n, n ≠ id → w'.recorded n = w.recorded n) (hid : SlotOk types g w' id s') :
    ∀ n s, w'.state? n = some s → SlotOk types g w' n s := by
  intro n s hs
  rw [hset] at hs
  split at hs
  · next hn =>
    cases hs
    exact hn ▸ hid
  · next hn => exact (h n s hs).mono hshow (hrecorded n hn)

theorem step {p q : Position} (htracked : p.Tracked types g)
    (h : ∀ n s, p.walk.state? n = some s → SlotOk types g p.walk n s) (hstep : Step types g p q) :
    ∀ n s, q.walk.state? n = some s → SlotOk types g q.walk n s := by
  have hshow := htracked.shows hstep
  cases hstep with
  | skip => exact h
  | @close frames rest w id cycles hasks hactive =>
    have hrecorded := recorded_recordCycle ((htracked.active id).2 ⟨cycles, hactive⟩) cycles
    refine all_of_set h hshow (state?_recordCycle w id cycles)
      (fun n hn => (hrecorded n).trans (if_neg hn)) (.active ?_)
    rw [hrecorded, if_pos rfl, (h id _ hactive).of_active]
  | @reject frames rest w id problem hasks hstate hreject =>
    have hrecorded := recorded_congr (reports_reject w id problem)
    refine all_of_set h hshow (state?_reject w id problem) (fun n _ => hrecorded n) ?_
    exact .rejected hreject ((hrecorded id).trans (h id _ hstate).of_unvisited) rfl
  | @descend frames rest w id node type hasks hstate htyped =>
    have hrecorded := recorded_congr (reports_descend w id)
    refine all_of_set h hshow (state?_descend w id) (fun n _ => hrecorded n) ?_
    exact .active ((hrecorded id).trans (h id _ hstate).of_unvisited).symm
  | @leave frame rest w hpending =>
    obtain ⟨cycles, hactive⟩ := htracked.exists_active
    have hfits := htracked.frames frame List.mem_cons_self
    have hfed : ∀ m, g.Feeds m frame.node.id → (w.outcome? m).isSome :=
      fun m hm => htracked.isSome_of_feeds hpending hm
    rw [leave_eq hactive] at hshow ⊢
    refine all_of_set h hshow (state?_settle w frame.node.id _) (fun n _ => rfl) ?_
    refine .compiled hfits.typed (fun m hm => hshow.isSome (hfed m hm)) ?_
    rw [hshow.outcomeOf_eq hfed, hfits.outcome_eq, (h _ _ hactive).of_active]
    rfl

end SlotOk

end Walk

theorem Position.Reached.slotOk {types : Catalogue} {g : Graph} {p : Position}
    (h : p.Reached types g) :
    ∀ n s, p.walk.state? n = some s → Walk.SlotOk types g p.walk n s := by
  refine h.induction (fun n s hs => ?_) fun _ _ hreached hp hstep =>
    Walk.SlotOk.step hreached.tracked hp hstep
  rw [Walk.state?_start hs]
  exact .unvisited rfl

/-! ## The end of the walk -/

namespace Walk

/-- Nothing is active in the end. -/
theorem done_of_state? {types : Catalogue} {g : Graph} {n : NodeId} {s : SlotState}
    (h : (walk types g).state? n = some s) (hvisited : s ≠ .unvisited) : ∃ o, s = .done o := by
  cases s with
  | unvisited => exact absurd rfl hvisited
  | active cycles =>
    have htracked := (reached_walk types g).tracked
    have hmem := (htracked.active n).2 ⟨cycles, h⟩
    rw [htracked.path] at hmem
    cases hmem
  | done o => exact ⟨o, rfl⟩

theorem exists_done (types : Catalogue) {g : Graph} {n : NodeId} (h : n ∈ g.nodes.keys) :
    ∃ o, (walk types g).state? n = some (.done o) := by
  have htracked := (reached_walk types g).tracked
  obtain ⟨s, hs⟩ := mem_keys_iff_state?.1
    (show n ∈ (walk types g).slots.keys from htracked.keys ▸ mem_keys_start.2 (Or.inl h))
  obtain ⟨o, rfl⟩ := done_of_state? hs fun he => walk_visited types h (he ▸ hs)
  exact ⟨o, hs⟩

theorem state?_of_outcome? {types : Catalogue} {g : Graph} {n : NodeId} {o : Outcome}
    (h : (walk types g).outcome? n = some o) : (walk types g).state? n = some (.done o) := by
  obtain ⟨s, hs, ho⟩ := Option.bind_eq_some_iff.1 h
  obtain ⟨o', rfl⟩ := done_of_state? hs fun he => by rw [he] at ho; cases ho
  cases ho
  exact hs

/-- The outcome of a known node, compiled by the outcomes in the end. -/
theorem outcome?_of_typed {types : Catalogue} {g : Graph} {n : NodeId} {node : Node}
    {type : NodeType} (h : g.Typed types n node type) :
    (walk types g).outcome? n = some
      ((g.outcomeOf node type (walk types g).outcome?).blockedBy ((walk types g).recorded n)) := by
  obtain ⟨o, ho⟩ := exists_done types (Roster.mem_keys_iff.2 ⟨node, h.1⟩)
  rw [outcome?_of_done ho]
  cases (reached_walk types g).slotOk n _ ho with
  | rejected hreject => exact absurd ⟨node, type, h⟩ hreject.not_known
  | compiled htyped hfed heq =>
    obtain ⟨rfl, rfl⟩ := h.unique htyped
    rw [heq]

theorem outcome?_of_rejected {types : Catalogue} {g : Graph} {n : NodeId} {problem : Problem}
    (h : Rejected types g n problem) (hn : n ∈ g.nodes.keys) :
    (walk types g).outcome? n = some (.error [⟨n, problem⟩]) := by
  obtain ⟨o, ho⟩ := exists_done types hn
  rw [outcome?_of_done ho]
  cases (reached_walk types g).slotOk n _ ho with
  | rejected hreject hrecorded heq => rw [heq, hreject.unique h]
  | compiled htyped => exact absurd ⟨_, _, htyped⟩ h.not_known

end Walk

/-- A node that has succeeded has been compiled, and no cycle has been recorded against it. -/
theorem Walk.of_outcome?_ok {types : Catalogue} {g : Graph} {n : NodeId} {f : Fragment}
    (h : (walk types g).outcome? n = some (.ok f)) :
    (walk types g).recorded n = [] ∧ ∃ node type, g.Typed types n node type ∧
      g.outcomeOf node type (walk types g).outcome? = .ok f := by
  cases (reached_walk types g).slotOk n _ (state?_of_outcome? h) with
  | rejected _ _ heq => cases heq
  | @compiled _ node type htyped _ heq =>
    by_cases hrecorded : (walk types g).recorded n = []
    · rw [show (⟨[], walk types g⟩ : Position).walk.recorded n = [] from hrecorded] at heq
      exact ⟨hrecorded, node, type, htyped, heq.symm⟩
    · rw [Outcome.blockedBy_of_ne_nil hrecorded] at heq
      cases heq

/-- Every declared input of a node that has succeeded is fed by a node that has succeeded. -/
theorem Walk.exists_source {types : Catalogue} {g : Graph} {n : NodeId} {f : Fragment}
    (h : (walk types g).outcome? n = some (.ok f)) {node : Node} {type : NodeType}
    (htyped : g.Typed types n node type) {input : String} (hinput : input ∈ type.inputs.entries) :
    ∃ j ∈ g.joints.entries, j.dest = ⟨n, input⟩ ∧
      ∃ source, (walk types g).outcome? j.source.node = some (.ok source) := by
  obtain ⟨-, node', type', htyped', hcompile⟩ := of_outcome?_ok h
  obtain ⟨rfl, rfl⟩ := htyped.unique htyped'
  obtain ⟨j, source, hj, hsource⟩ := Fragment.exists_source_of_compile hcompile hinput
  rw [Graph.find?_jointsInto, htyped.id_eq] at hj
  obtain ⟨hmem, hdest⟩ := Roster.mem_of_get? hj
  exact ⟨j, hmem, hdest, source, hsource⟩

/-! ## The fixpoint -/

/-- **The outcomes of a walk are a fixpoint.** Compiling a placed node by the outcomes of the whole
walk gives its outcome, except that the cycles recorded against it come first and rule out success;
a node whose type is unknown has that as its only error. So every declared input of a node that has
succeeded is fed by a node that has succeeded. -/
theorem walk_outcome_fixpoint (types : Catalogue) (g : Graph) (node : Node)
    (hnode : node ∈ g.nodes.entries) :
    (types.get? node.type = none →
      (walk types g).outcome? node.id = some (.error [⟨node.id, .typeNotFound node.type⟩]) ∧
      (Problem.typeNotFound node.type).message = "Type '" ++ node.type.text ++ "' not found") ∧
    ∀ type, types.get? node.type = some type →
      ((walk types g).recorded node.id = [] →
        (walk types g).outcome? node.id =
          some (g.outcomeOf node type (walk types g).outcome?)) ∧
      ((walk types g).recorded node.id ≠ [] → ∀ f,
        g.outcomeOf node type (walk types g).outcome? = .ok f →
        (walk types g).outcome? node.id = some (.error ((walk types g).recorded node.id))) ∧
      ((walk types g).recorded node.id ≠ [] → ∀ errors,
        g.outcomeOf node type (walk types g).outcome? = .error errors →
        (walk types g).outcome? node.id =
          some (.error ((walk types g).recorded node.id ++ errors))) ∧
      ∀ f, (walk types g).outcome? node.id = some (.ok f) →
        ∀ input ∈ type.inputs.entries, ∃ j ∈ g.joints.entries, j.dest = ⟨node.id, input⟩ ∧
          ∃ source, (walk types g).outcome? j.source.node = some (.ok source) := by
  have hget : g.nodes.get? node.id = some node := Roster.get?_key hnode
  refine ⟨fun htype => ⟨?_, rfl⟩, fun type htype => ?_⟩
  · exact Walk.outcome?_of_rejected (.untyped hget htype) (Roster.key_mem_keys hnode)
  · have htyped : g.Typed types node.id node type := ⟨hget, htype⟩
    have houtcome := Walk.outcome?_of_typed htyped
    refine ⟨fun hnone => ?_, fun hsome f hf => ?_, fun hsome errors herrors => ?_, ?_⟩
    · rw [houtcome, hnone, Outcome.blockedBy_nil]
    · rw [houtcome, Outcome.blockedBy_of_ne_nil hsome, hf]
      simp [Checked.errors]
    · rw [houtcome, Outcome.blockedBy_of_ne_nil hsome, herrors]
      rfl
    · intro f hf input hinput
      exact Walk.exists_source hf htyped hinput

namespace Sample

/-- A type without inputs and a type with one. -/
def types : Catalogue :=
  .ofList
    [(NodeType.new ⟨"Test", "One"⟩).withOverload ⟨[.scalar], ["float #node_result = 1.0;"]⟩,
      ((NodeType.new ⟨"Test", "Negate"⟩).withInput "X").withOverload
        ⟨[.scalar, .scalar], ["float #node_result = -#inputX;"]⟩]

/-- A node of one of these types. -/
def node (id : UInt32) (name : String) : Node := ⟨⟨id⟩, ⟨"Test", name⟩, .origin, .empty⟩

/-- A joint that takes the whole result of its source. -/
def joint (source dest : UInt32) (input : String) : Joint := ⟨⟨⟨dest⟩, input⟩, ⟨⟨source⟩, .all⟩⟩

/-- Two nodes that read each other. -/
def loop : Graph :=
  ⟨.ofList [node 1 "Negate", node 2 "Negate"], .ofList [joint 1 2 "X", joint 2 1 "X"]⟩

end Sample

/-- The first node of a loop fails with the cycle alone: the other one has failed silently. -/
theorem walk_outcome_fixpoint_loop :
    (walk Sample.types Sample.loop).outcome? ⟨1⟩ =
      some (.error ([⟨⟨1⟩, .cycle [⟨1⟩, ⟨2⟩, ⟨1⟩]⟩] ++ [])) := by
  have hrecorded : (walk Sample.types Sample.loop).recorded ⟨1⟩ =
      [⟨⟨1⟩, .cycle [⟨1⟩, ⟨2⟩, ⟨1⟩]⟩] := by decide_cbv
  have hfixpoint := walk_outcome_fixpoint Sample.types Sample.loop (Sample.node 1 "Negate")
    (by decide_cbv)
  obtain ⟨-, -, hfailed, -⟩ := hfixpoint.2
    (((NodeType.new ⟨"Test", "Negate"⟩).withInput "X").withOverload
      ⟨[.scalar, .scalar], ["float #node_result = -#inputX;"]⟩) (by decide_cbv)
  rw [← hrecorded]
  exact hfailed (by rw [show Node.id _ = ⟨1⟩ from rfl, hrecorded]; simp) [] (by decide_cbv)

end ShaderNodes
