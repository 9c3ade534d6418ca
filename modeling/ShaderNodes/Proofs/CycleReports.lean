import ShaderNodes.Proofs.Cycles

/-!
# Reports of cycles

Each reported cycle is a cycle of joints, without repetition, that starts at the node it is recorded
against. Its nodes are listed in the order in which they were entered, and it is reported when the
joint from its first node into its last one is followed. Nodes are entered once and joints are
followed once, so no cycle is reported twice, wherever one starts to read it.

* `Position.Reporting`: what holds of the reports at every position;
* `Walk.perm_reports`: the cycles among the errors of a walk are the reported ones;
* `walk_reports_cycles`: reports are sound, complete and free of repeats.
-/

namespace ShaderNodes

open Relation

/-- Sublists of a list without repetition are equal if they have the same elements. -/
theorem eq_of_sublist_of_perm {α : Type} {l l₁ l₂ : List α} (hl : l.Nodup) (h₁ : l₁.Sublist l)
    (h₂ : l₂.Sublist l) (h : l₁.Perm l₂) : l₁ = l₂ := by
  induction l generalizing l₁ l₂ with
  | nil => rw [List.sublist_nil.1 h₁, List.sublist_nil.1 h₂]
  | cons a l ih =>
    obtain ⟨ha, hl⟩ := List.nodup_cons.1 hl
    cases h₁ with
    | cons _ h₁ =>
      cases h₂ with
      | cons _ h₂ => exact ih hl h₁ h₂ h
      | cons_cons _ h₂ => exact absurd (h₁.subset (h.mem_iff.2 List.mem_cons_self)) ha
    | cons_cons _ h₁ =>
      cases h₂ with
      | cons _ h₂ => exact absurd (h₂.subset (h.mem_iff.1 List.mem_cons_self)) ha
      | cons_cons _ h₂ => rw [ih hl h₁ h₂ (List.perm_cons a |>.1 h)]

/-! ## Joints that have been followed -/

/-- The joint from `n` into `a` has been followed: `a` is settled, or `n` is no longer pending. -/
def Position.Crossed (p : Position) (a n : NodeId) : Prop :=
  (∃ o, p.walk.state? a = some (.done o)) ∨ ∃ f ∈ p.frames, f.node.id = a ∧ n ∉ f.pending

/-- Taking up a node leaves the frames in place, with no more pending than before. -/
theorem Asks.exists_frame {g : Graph} {frames rest : List Frame} {id : NodeId}
    (h : Asks g frames id rest) {f : Frame} (hf : f ∈ frames) :
    ∃ f' ∈ rest, f'.node.id = f.node.id ∧ ∀ d ∈ f'.pending, d ∈ f.pending := by
  cases h with
  | root => cases hf
  | @pending frame id pending h rest =>
    rcases List.mem_cons.1 hf with rfl | hf
    · refine ⟨_, List.mem_cons_self, rfl, fun d hd => ?_⟩
      rw [h]
      exact List.mem_cons_of_mem _ hd
    · exact ⟨f, List.mem_cons_of_mem _ hf, rfl, fun _ hd => hd⟩

namespace Position.Tracked

variable {types : Catalogue} {g : Graph}

theorem crossed_of_step {p q : Position} (h : Tracked types g p) (hstep : Step types g p q)
    {a n : NodeId} (hcrossed : p.Crossed a n) : q.Crossed a n := by
  rcases hcrossed with ⟨o, ho⟩ | ⟨f, hf, rfl, hn⟩
  · exact Or.inl ⟨o, h.done_of_step hstep ho⟩
  · have hrest {rest : List Frame} {id : NodeId} {w : Walk} (hasks : Asks g p.frames id rest) :
        Position.Crossed ⟨rest, w⟩ f.node.id n := by
      obtain ⟨f', hf', hid, hpending⟩ := hasks.exists_frame hf
      exact Or.inr ⟨f', hf', hid, fun hmem => hn (hpending n hmem)⟩
    cases hstep with
    | skip hasks => exact hrest hasks
    | close hasks => exact hrest hasks
    | reject hasks => exact hrest hasks
    | descend hasks =>
      obtain ⟨f', hf', hid, hpending⟩ := hasks.exists_frame hf
      exact Or.inr ⟨f', List.mem_cons_of_mem _ hf', hid, fun hmem => hn (hpending n hmem)⟩
    | @leave frame rest w hpending =>
      rcases List.mem_cons.1 hf with rfl | hf
      · obtain ⟨cycles, hactive⟩ := h.exists_active
        rw [Walk.leave_eq hactive]
        exact Or.inl ⟨_, (Walk.state?_settle ..).trans (if_pos rfl)⟩
      · exact Or.inr ⟨f, hf, rfl, hn⟩

end Position.Tracked

/-- Each frame has been entered from the one below it, through a joint. -/
theorem Stacked.isChain {types : Catalogue} {g : Graph} {w : Walk} {above : Option NodeId}
    {frames : List Frame} (h : Stacked w above frames) (hframes : ∀ f ∈ frames, f.Fits types g) :
    (above.toList ++ frames.map fun f => f.node.id).IsChain g.Feeds := by
  induction frames generalizing above with
  | nil => cases above <;> simp
  | cons frame rest ih =>
    obtain ⟨⟨visited, hdeps, -⟩, hrest⟩ := h
    have hchain := ih hrest fun f hf => hframes f (List.mem_cons_of_mem _ hf)
    cases above with
    | none => exact hchain
    | some id =>
      refine List.isChain_cons_cons.2 ⟨?_, hchain⟩
      have hmem : id ∈ frame.dependencies := by simp [hdeps]
      rw [(hframes frame List.mem_cons_self).dependencies] at hmem
      exact Graph.mem_dependencies.1 hmem

/-! ## What holds of the reports -/

/-- A cycle as it is reported: without repetition, in the order in which its nodes were entered, and
with the joint that closes it followed. -/
structure Position.Reported (types : Catalogue) (g : Graph) (p : Position)
    (cycle : List NodeId) : Prop where
  nodup : cycle.Nodup
  isCycle : g.IsCycle types cycle
  entered : cycle.Sublist p.walk.entered
  crossed : ∀ first ∈ cycle.head?, ∀ last ∈ cycle.getLast?, p.Crossed last first

structure Position.Reporting (types : Catalogue) (g : Graph) (p : Position) : Prop where
  nodup : p.walk.entered.Nodup
  visited : ∀ n ∈ p.walk.entered, p.walk.state? n ≠ some .unvisited
  path : p.walk.path.reverse.Sublist p.walk.entered
  reported : ∀ r ∈ p.walk.reports,
    ∃ cycle, r = cycle ++ cycle.head?.toList ∧ p.Reported types g cycle
  distinct : p.walk.reports.Pairwise fun r s => ¬ r.dropLast ~r s.dropLast

namespace Position

variable {types : Catalogue} {g : Graph}

theorem Reported.mono {p q : Position} {cycle : List NodeId} (h : p.Reported types g cycle)
    (hentered : p.walk.entered.Sublist q.walk.entered)
    (hcrossed : ∀ {a n}, p.Crossed a n → q.Crossed a n) : q.Reported types g cycle where
  nodup := h.nodup
  isCycle := h.isCycle
  entered := h.entered.trans hentered
  crossed first hfirst last hlast := hcrossed (h.crossed first hfirst last hlast)

namespace Tracked

theorem known_of_mem_path {p : Position} (h : Tracked types g p) {n : NodeId}
    (hn : n ∈ p.walk.path) : g.Known types n := by
  rw [h.path] at hn
  obtain ⟨f, hf, rfl⟩ := List.mem_map.1 hn
  exact ⟨_, _, (h.frames f hf).typed⟩

/-- Read from the outside in, each node of the path is fed by the next one, and the innermost one by
the node that comes up. -/
theorem isChain_path {frames rest : List Frame} {w : Walk} {id : NodeId}
    (h : Tracked types g ⟨frames, w⟩) (hasks : Asks g frames id rest) :
    (w.path.reverse ++ [id]).IsChain fun n m => g.Feeds m n := by
  have hchain := (hasks.stacked h.stacked).isChain (hasks.fits h.frames)
  have hids : rest.map (fun f => f.node.id) = w.path := hasks.map_node.trans h.path.symm
  rw [hids] at hchain
  rw [← List.reverse_cons]
  exact List.isChain_reverse.2 hchain

theorem pending_nodup {frame : Frame} {rest : List Frame} {w : Walk}
    (h : Tracked types g ⟨frame :: rest, w⟩) : frame.pending.Nodup := by
  obtain ⟨⟨visited, hdeps, -⟩, -⟩ := h.stacked
  have hnodup : frame.dependencies.Nodup := by
    rw [(h.frames frame List.mem_cons_self).dependencies]
    exact g.dependencies_nodup _ _
  rw [hdeps] at hnodup
  exact (List.nodup_append.1 hnodup).2.1

/-- The joint from a pending node has not been followed. -/
theorem not_crossed {frame : Frame} {rest : List Frame} {w : Walk} {id : NodeId}
    (h : Tracked types g ⟨frame :: rest, w⟩) (hid : id ∈ frame.pending) :
    ¬ Crossed ⟨frame :: rest, w⟩ frame.node.id id := by
  rintro (⟨o, hdone⟩ | ⟨f, hf, hnode, hnot⟩)
  · obtain ⟨cycles, hactive⟩ := h.exists_active
    rw [hactive] at hdone
    cases hdone
  · rcases List.mem_cons.1 hf with rfl | hf
    · exact hnot hid
    · have hnodup := h.nodup
      rw [h.path, List.map_cons] at hnodup
      exact (List.nodup_cons.1 hnodup).1 (hnode ▸ List.mem_map_of_mem hf)

/-- The cycle that is closed by meeting an active node, and the joint that closes it. -/
theorem reported_close {frames rest : List Frame} {w : Walk} {id : NodeId}
    {cycles : List Diagnostic} (h : Tracked types g ⟨frames, w⟩)
    (hpath : w.path.reverse.Sublist w.entered) (hasks : Asks g frames id rest)
    (hactive : w.state? id = some (.active cycles)) :
    ∃ inner last, w.cycleAt id = (id :: inner) ++ [id] ∧
      Reported types g ⟨rest, w.recordCycle id cycles⟩ (id :: inner) ∧
      last ∈ (id :: inner).getLast? ∧ ¬ Crossed ⟨frames, w⟩ last id := by
  have hmem : id ∈ w.path := (h.active id).2 ⟨cycles, hactive⟩
  obtain ⟨outer, inner, hrev, -, hcycle⟩ := Walk.exists_cycleAt_eq hmem
  have hsub : (id :: inner).Sublist w.path.reverse := hrev ▸ List.sublist_append_right outer _
  have hisCycle : g.IsCycle types (id :: inner) := by
    have hchain := h.isChain_path hasks
    rw [hrev, List.append_assoc] at hchain
    refine ⟨by simp, fun n hn => ?_, hchain.right_of_append⟩
    exact h.known_of_mem_path (List.mem_reverse.1 (hsub.subset hn))
  cases hasks with
  | root =>
    rw [h.path] at hmem
    cases hmem
  | @pending frame id pending hpending rest =>
    have hlast : frame.node.id ∈ (id :: inner).getLast? := by
      have hhead : w.path.reverse.getLast? = some frame.node.id := by
        rw [List.getLast?_reverse, h.path]
        rfl
      rwa [hrev, List.getLast?_append_of_ne_nil _ (List.cons_ne_nil _ _)] at hhead
    have hfresh : id ∉ pending := (List.nodup_cons.1 (hpending ▸ h.pending_nodup)).1
    refine ⟨inner, frame.node.id, hcycle, ⟨?_, hisCycle, ?_, ?_⟩, hlast, ?_⟩
    · exact hsub.nodup (List.nodup_reverse.2 h.nodup)
    · exact Walk.entered_recordCycle w id cycles ▸ hsub.trans hpath
    · intro first hfirst last hlast'
      obtain rfl : id = first := by simpa using hfirst
      obtain rfl : frame.node.id = last := Option.mem_unique hlast hlast'
      exact Or.inr ⟨_, List.mem_cons_self, rfl, hfresh⟩
    · exact h.not_crossed (hpending ▸ List.mem_cons_self)

end Tracked

/-- Entering a node for the first time is the only way to add to the nodes entered. -/
theorem Tracked.entered_of_step {p q : Position} (h : Tracked types g p)
    (hstep : Step types g p q) :
    q.walk.entered = p.walk.entered ∨ ∃ id, q.walk.entered = p.walk.entered ++ [id] ∧
      p.walk.state? id = some .unvisited ∧ q.walk.state? id ≠ some .unvisited := by
  cases hstep with
  | skip => exact Or.inl rfl
  | close => exact Or.inl (Walk.entered_recordCycle ..)
  | @reject frames rest w id problem hasks hstate =>
    refine Or.inr ⟨id, Walk.entered_reject .., hstate, ?_⟩
    rw [Walk.state?_reject, if_pos rfl]
    simp
  | @descend frames rest w id node type hasks hstate =>
    refine Or.inr ⟨id, Walk.entered_descend .., hstate, ?_⟩
    rw [Walk.state?_descend, if_pos rfl]
    simp
  | leave =>
    obtain ⟨cycles, hactive⟩ := h.exists_active
    rw [Walk.leave_eq hactive]
    exact Or.inl rfl

theorem Tracked.entered_sublist {p q : Position} (h : Tracked types g p)
    (hstep : Step types g p q) : p.walk.entered.Sublist q.walk.entered := by
  rcases h.entered_of_step hstep with heq | ⟨id, heq, -⟩
  · rw [heq]
  · exact heq ▸ List.sublist_append_left _ _

theorem dropLast_append_head? (cycle : List NodeId) :
    (cycle ++ cycle.head?.toList).dropLast = cycle := by
  cases cycle with
  | nil => rfl
  | cons first rest => exact List.dropLast_concat

namespace Reporting

theorem start (g : Graph) : Reporting types g ⟨[], .start g⟩ where
  nodup := List.nodup_nil
  visited n hn := by cases hn
  path := List.Sublist.slnil
  reported r hr := by cases hr
  distinct := List.Pairwise.nil

/-- A step keeps what holds of the reports, once this is known of the path and the reports. -/
theorem of_step {p q : Position} (htracked : Tracked types g p) (h : Reporting types g p)
    (hstep : Step types g p q) (hpath : q.walk.path.reverse.Sublist q.walk.entered)
    (hnew : ∀ r ∈ q.walk.reports, r ∈ p.walk.reports ∨
      ∃ cycle, r = cycle ++ cycle.head?.toList ∧ q.Reported types g cycle)
    (hdistinct : q.walk.reports.Pairwise fun r s => ¬ r.dropLast ~r s.dropLast) :
    Reporting types g q where
  nodup := by
    rcases htracked.entered_of_step hstep with heq | ⟨id, heq, hid, -⟩
    · exact heq ▸ h.nodup
    · rw [heq, List.nodup_append]
      refine ⟨h.nodup, by simp, fun a ha b hb he => ?_⟩
      rw [List.mem_singleton.1 hb] at he
      exact h.visited a ha (he ▸ hid)
  visited n hn := by
    rcases htracked.entered_of_step hstep with heq | ⟨id, heq, -, hid⟩
    · exact Walk.visited_of_step hstep (h.visited n (heq ▸ hn))
    · rw [heq, List.mem_append] at hn
      rcases hn with hn | hn
      · exact Walk.visited_of_step hstep (h.visited n hn)
      · exact List.mem_singleton.1 hn ▸ hid
  path := hpath
  reported r hr := by
    rcases hnew r hr with hr | hr
    · obtain ⟨cycle, hcycle, hreported⟩ := h.reported r hr
      exact ⟨cycle, hcycle, hreported.mono (htracked.entered_sublist hstep)
        (htracked.crossed_of_step hstep)⟩
    · exact hr
  distinct := hdistinct

/-- The cycle that is reported on meeting an active node has not been reported before. -/
theorem step_close {frames rest : List Frame} {w : Walk} {id : NodeId} {cycles : List Diagnostic}
    (htracked : Tracked types g ⟨frames, w⟩) (h : Reporting types g ⟨frames, w⟩)
    (hasks : Asks g frames id rest) (hactive : w.state? id = some (.active cycles)) :
    Reporting types g ⟨rest, w.recordCycle id cycles⟩ := by
  obtain ⟨inner, last, hcycle, hreported, hlast, hopen⟩ :=
    htracked.reported_close h.path hasks hactive
  have hreports := Walk.reports_recordCycle w id cycles
  refine of_step htracked h (.close hasks hactive) ?_ (fun r hr => ?_) ?_
  · exact Walk.entered_recordCycle w id cycles ▸ h.path
  · rw [hreports, List.mem_append, List.mem_singleton] at hr
    rcases hr with hr | rfl
    · exact Or.inl hr
    · exact Or.inr ⟨id :: inner, hcycle, hreported⟩
  · rw [hreports, List.pairwise_append]
    refine ⟨h.distinct, List.pairwise_singleton .., fun r hr s hs hrotated => ?_⟩
    obtain ⟨old, rfl, hold⟩ := h.reported r hr
    rw [List.mem_singleton.1 hs, hcycle, List.dropLast_concat, dropLast_append_head?] at hrotated
    -- Both list their nodes in the order of entry, so they are the same list.
    have hentered := Walk.entered_recordCycle w id cycles ▸ hreported.entered
    rw [eq_of_sublist_of_perm h.nodup hold.entered hentered hrotated.perm] at hold
    exact hopen (hold.crossed id rfl last hlast)

theorem step {p q : Position} (htracked : Tracked types g p) (h : Reporting types g p)
    (hstep : Step types g p q) : Reporting types g q := by
  have hquiet (hreports : q.walk.reports = p.walk.reports)
      (hpath : q.walk.path.reverse.Sublist q.walk.entered) : Reporting types g q :=
    of_step htracked h hstep hpath (fun r hr => Or.inl (hreports ▸ hr)) (hreports ▸ h.distinct)
  have hsub := h.path.trans (htracked.entered_sublist hstep)
  cases hstep with
  | skip => exact hquiet rfl hsub
  | close hasks hactive => exact step_close htracked h hasks hactive
  | reject => exact hquiet (Walk.reports_reject ..) hsub
  | @descend frames rest w id =>
    refine hquiet (Walk.reports_descend ..) ?_
    rw [Walk.entered_descend]
    exact (List.reverse_cons ▸ h.path.append (List.Sublist.refl [id]) :)
  | @leave frame rest w =>
    obtain ⟨cycles, hactive⟩ := htracked.exists_active
    rw [Walk.leave_eq hactive] at hquiet hsub ⊢
    exact hquiet rfl ((List.reverse_sublist.2 (List.tail_sublist w.path)).trans hsub)

end Reporting

theorem Reached.reporting {p : Position} (h : p.Reached types g) : p.Reporting types g :=
  h.induction (Reporting.start g) fun _ _ hreached hp hstep => hp.step hreached.tracked hstep

end Position

/-! ## Errors and reports -/

theorem perm_flatMap_filter {α κ : Type} [DecidableEq κ] (f : α → Option κ) {ks : List κ}
    (hks : ks.Nodup) {l : List α} (h : ∀ a ∈ l, ∃ k ∈ ks, f a = some k) :
    (ks.flatMap fun k => l.filter fun a => f a = some k).Perm l := by
  induction ks generalizing l with
  | nil =>
    cases l with
    | nil => exact .refl _
    | cons a l =>
      obtain ⟨k, hk, -⟩ := h a List.mem_cons_self
      cases hk
  | cons k ks ih =>
    obtain ⟨hk, hks⟩ := List.nodup_cons.1 hks
    have hrest : (ks.flatMap fun k' => l.filter fun a => f a = some k').Perm
        (l.filter fun a => !decide (f a = some k)) := by
      refine .trans (.of_eq ?_) (ih hks fun a ha => ?_)
      · refine List.flatMap_congr fun k' hk' => ?_
        rw [List.filter_filter]
        refine List.filter_congr fun a _ => ?_
        have hne : k' ≠ k := fun he => hk (he ▸ hk')
        by_cases ha : f a = some k' <;> simp [ha, hne]
      · obtain ⟨hmem, hne⟩ := List.mem_filter.1 ha
        obtain ⟨k', hk', hfk⟩ := h a hmem
        rcases List.mem_cons.1 hk' with rfl | hk'
        · simp [hfk] at hne
        · exact ⟨k', hk', hfk⟩
    exact (hrest.append_left _).trans (List.filter_append_perm _ l)

namespace Walk

/-- The errors of a node. -/
def errorsOf (w : Walk) (n : NodeId) : List Diagnostic :=
  match w.outcome? n with
  | some outcome => outcome.errors
  | none => []

theorem errors_eq (w : Walk) : w.errors = w.slots.keys.flatMap w.errorsOf := by
  unfold errors Roster.keys
  rw [List.flatMap_map]
  refine List.flatMap_congr fun slot hslot => ?_
  unfold errorsOf outcome? state?
  rw [Roster.get?_key hslot]
  rfl

/-- The cycles among the errors of all nodes. -/
def cyclePaths (w : Walk) : List (List NodeId) := w.errors.filterMap fun d => d.problem.cycle?

variable {types : Catalogue} {g : Graph}

theorem exists_cycle_of_mem_reports {path : List NodeId} (h : path ∈ (walk types g).reports) :
    ∃ n nodes, path = nodes ++ [n] ∧ nodes.head? = some n ∧ nodes.Nodup ∧
      g.IsCycle types nodes := by
  obtain ⟨nodes, rfl, hreported⟩ := (reached_walk types g).reporting.reported path h
  obtain ⟨n, rest, rfl⟩ := List.exists_cons_of_ne_nil hreported.isCycle.ne_nil
  exact ⟨n, n :: rest, rfl, rfl, hreported.nodup, hreported.isCycle⟩

theorem known_of_recorded {n : NodeId} (h : (walk types g).recorded n ≠ []) :
    g.Known types n := by
  obtain ⟨d, hd⟩ := List.exists_mem_of_ne_nil _ h
  obtain ⟨path, hpath, -⟩ := List.mem_map.1 hd
  obtain ⟨hmem, hhead⟩ := List.mem_filter.1 hpath
  obtain ⟨m, nodes, rfl, hm, -, hcycle⟩ := exists_cycle_of_mem_reports hmem
  have hnm : m = n := by simpa [List.head?_append, hm] using hhead
  exact hnm ▸ hcycle.known m (List.mem_of_mem_head? hm)

/-- The errors of a node are the cycles recorded against it, followed by its own errors. -/
theorem exists_errorsOf_eq (types : Catalogue) (g : Graph) (n : NodeId) :
    ∃ plain, (walk types g).errorsOf n = (walk types g).recorded n ++ plain ∧
      ∀ d ∈ plain, d.Plain n := by
  unfold errorsOf
  by_cases hknown : g.Known types n
  · obtain ⟨node, type, htyped⟩ := hknown
    rw [outcome?_of_typed htyped]
    refine ⟨_, Outcome.errors_blockedBy .., fun d hd => ?_⟩
    exact htyped.id_eq ▸ Fragment.mem_errors_compile hd
  · have hrecorded : (walk types g).recorded n = [] :=
      Classical.byContradiction fun hne => hknown (known_of_recorded hne)
    rw [hrecorded]
    cases houtcome : (walk types g).outcome? n with
    | none => exact ⟨[], rfl, fun d hd => by cases hd⟩
    | some outcome =>
      cases (reached_walk types g).slotOk n _ (state?_of_outcome? houtcome) with
      | compiled htyped => exact absurd ⟨_, _, htyped⟩ hknown
      | @rejected _ problem hreject _ heq =>
        refine ⟨_, rfl, fun d hd => ?_⟩
        rw [heq] at hd
        obtain rfl : d = ⟨n, problem⟩ := List.mem_singleton.1 hd
        cases hreject <;> exact ⟨rfl, rfl⟩

theorem mem_recorded_of_cycle {n : NodeId} {d : Diagnostic} {path : List NodeId}
    (hd : d ∈ (walk types g).errorsOf n) (hpath : d.problem = .cycle path) :
    d ∈ (walk types g).recorded n := by
  obtain ⟨plain, heq, hplain⟩ := exists_errorsOf_eq types g n
  rw [heq, List.mem_append] at hd
  rcases hd with hd | hd
  · exact hd
  · have hnone := (hplain d hd).2
    rw [hpath] at hnone
    cases hnone

theorem filterMap_cycle?_errorsOf (n : NodeId) :
    ((walk types g).errorsOf n).filterMap (fun d => d.problem.cycle?) =
      (walk types g).reports.filter fun path => path.head? = some n := by
  obtain ⟨plain, heq, hplain⟩ := exists_errorsOf_eq types g n
  have hnone : plain.filterMap (fun d => d.problem.cycle?) = [] :=
    List.filterMap_eq_nil_iff.2 fun d hd => (hplain d hd).2
  rw [heq, List.filterMap_append, hnone, List.append_nil, recorded, List.filterMap_map]
  exact List.filterMap_some

/-- The cycles among the errors are those that have been reported. -/
theorem perm_reports (types : Catalogue) (g : Graph) :
    (walk types g).cyclePaths.Perm (walk types g).reports := by
  unfold cyclePaths
  rw [errors_eq, List.filterMap_flatMap]
  simp only [filterMap_cycle?_errorsOf]
  refine perm_flatMap_filter List.head? (Roster.keys_nodup _) fun path hpath => ?_
  obtain ⟨n, nodes, rfl, hn, -, hcycle⟩ := exists_cycle_of_mem_reports hpath
  obtain ⟨node, _, htyped⟩ := hcycle.known n (List.mem_of_mem_head? hn)
  have hkeys : (walk types g).slots.keys = (start g).slots.keys :=
    (reached_walk types g).tracked.keys
  refine ⟨n, ?_, by simp [List.head?_append, hn]⟩
  exact hkeys ▸ mem_keys_start.2 (Or.inl (Roster.mem_keys_iff.2 ⟨node, htyped.1⟩))

theorem count_cycleDetected (w : Walk) (path : List NodeId) :
    w.events.count (.cycleDetected path) = w.reports.count path := by
  unfold reports
  rw [← List.count_reverse]
  induction w.events.reverse with
  | nil => rfl
  | cons e es ih =>
    rw [List.count_cons, ih, List.filterMap_cons]
    cases e <;> simp [Event.cycle?, List.count_cons]

theorem distinct_reports (types : Catalogue) (g : Graph) :
    (walk types g).reports.Pairwise fun r s => ¬ r.dropLast ~r s.dropLast :=
  (reached_walk types g).reporting.distinct

theorem reports_nodup (types : Catalogue) (g : Graph) : (walk types g).reports.Nodup :=
  (distinct_reports types g).imp fun {r s} hne (he : r = s) => hne (he ▸ .refl _)

/-- A cycle among the errors of a node starts and ends at the node. -/
theorem isCycle_of_mem_errorsOf {n : NodeId} {d : Diagnostic} {path : List NodeId}
    (hd : d ∈ (walk types g).errorsOf n) (hpath : d.problem = .cycle path) :
    d.node = n ∧ ∃ nodes, path = nodes ++ [n] ∧ nodes.head? = some n ∧ nodes.Nodup ∧
      g.IsCycle types nodes := by
  obtain ⟨path', hmem, rfl⟩ := List.mem_map.1 (mem_recorded_of_cycle hd hpath)
  obtain rfl : path' = path := Problem.cycle.inj hpath
  obtain ⟨hreport, hhead⟩ := List.mem_filter.1 hmem
  obtain ⟨m, nodes, rfl, hm, hnodup, hcycle⟩ := exists_cycle_of_mem_reports hreport
  obtain rfl : m = n := by simpa [List.head?_append, hm] using hhead
  exact ⟨rfl, nodes, rfl, hm, hnodup, hcycle⟩

theorem exists_cycle_mem_errorsOf {nodes : List NodeId} (h : g.IsCycle types nodes) :
    ∃ n ∈ nodes, ∃ path, (⟨n, .cycle path⟩ : Diagnostic) ∈ (walk types g).errorsOf n := by
  obtain ⟨n, hn, hrecorded⟩ := exists_recorded_of_isCycle h
  obtain ⟨d, hd⟩ := List.exists_mem_of_ne_nil _ hrecorded
  obtain ⟨plain, heq, -⟩ := exists_errorsOf_eq types g n
  obtain ⟨path, -, rfl⟩ := List.mem_map.1 hd
  exact ⟨n, hn, path, heq ▸ List.mem_append_left _ hd⟩

/-- Cycles are among the errors if and only if there are cycles. -/
theorem cyclePaths_eq_nil_iff (types : Catalogue) (g : Graph) :
    (walk types g).cyclePaths = [] ↔ ∀ nodes, ¬ g.IsCycle types nodes := by
  constructor
  · intro hnil nodes hcycle
    have hperm := perm_reports types g
    rw [hnil] at hperm
    obtain ⟨n, -, hrecorded⟩ := exists_recorded_of_isCycle hcycle
    rw [recorded, ← hperm.nil_eq] at hrecorded
    exact hrecorded rfl
  · intro hnone
    refine List.eq_nil_iff_forall_not_mem.2 fun path hpath => ?_
    obtain ⟨_, nodes, -, -, -, hcycle⟩ :=
      exists_cycle_of_mem_reports ((perm_reports types g).mem_iff.1 hpath)
    exact hnone nodes hcycle

end Walk

/-- **Cycles are reported soundly, completely and once.** A cycle among the errors of a node goes
from the node through distinct known nodes back to it; some node of every cycle has such an error;
no two of these errors are the same cycle, even if read from different nodes; and to each of them
belongs one warning. -/
theorem walk_reports_cycles (types : Catalogue) (g : Graph) :
    (∀ n, ∀ d ∈ (walk types g).errorsOf n, ∀ path, d.problem = .cycle path →
      d.node = n ∧ d.problem.message = "Cyclic dependency found: " ++ pathText path ∧
      ∃ nodes, path = nodes ++ [n] ∧ nodes.head? = some n ∧ nodes.Nodup ∧
        g.IsCycle types nodes) ∧
    (∀ nodes, g.IsCycle types nodes →
      ∃ n ∈ nodes, ∃ path, (⟨n, .cycle path⟩ : Diagnostic) ∈ (walk types g).errorsOf n) ∧
    ((walk types g).cyclePaths = [] ↔ ∀ nodes, ¬ g.IsCycle types nodes) ∧
    ((walk types g).cyclePaths.Pairwise fun r s => ¬ r.dropLast ~r s.dropLast) ∧
    (walk types g).cyclePaths.Perm (walk types g).reports ∧
    ∀ path ∈ (walk types g).cyclePaths,
      (walk types g).events.count (.cycleDetected path) = 1 ∧
      (Event.cycleDetected path).severity = .warn ∧
      (Event.cycleDetected path).message = "cycle detected: " ++ pathText path := by
  have hperm := Walk.perm_reports types g
  refine ⟨fun n d hd path hpath => ?_, fun nodes => Walk.exists_cycle_mem_errorsOf,
    Walk.cyclePaths_eq_nil_iff types g, ?_, hperm, fun path hpath => ⟨?_, rfl, rfl⟩⟩
  · obtain ⟨hnode, hcycle⟩ := Walk.isCycle_of_mem_errorsOf hd hpath
    exact ⟨hnode, by rw [hpath]; rfl, hcycle⟩
  · exact (hperm.pairwise_iff fun hne he => hne he.symm).2 (Walk.distinct_reports types g)
  · rw [Walk.count_cycleDetected]
    exact List.count_eq_one_of_mem (Walk.reports_nodup types g) (hperm.mem_iff.1 hpath)

end ShaderNodes
