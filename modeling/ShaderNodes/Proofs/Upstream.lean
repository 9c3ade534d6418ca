import Mathlib
import ShaderNodes.Proofs.FragmentOrder

/-!
# What a preview depends on

The walk takes the nodes of a graph in the order in which they are listed, so two graphs with the
same nodes in front of a node may come to it by different ways and record other cycles. As long as
all cycles in front of the node go through declared inputs this makes no difference: a node on such
a cycle fails in any case, and every other node is compiled by what is seen of the nodes in front of
it. So the program of a node is the same in all graphs that agree upstream of it.

* `Graph.Upstream`: the nodes that can have a part in the preview of a node;
* `Graph.AgreeAt`: two graphs say the same of a node;
* `Graph.AgreeUpstream.fragment?_eq`: nodes upstream have the same fragments in both graphs;
* `Graph.AgreeUpstream.order_eq`: the fragments are placed in the same order;
* `preview_eq_of_agree_upstream`: the preview of a node depends only on what is upstream of it.
-/

namespace ShaderNodes

open Relation

/-! ## What is upstream of a node -/

/-- The node without its place. -/
def Node.unplaced (n : Node) : Node := { n with offset := .origin }

/-- The type without what only users of its nodes look at. -/
def NodeType.bare (t : NodeType) : NodeType := { t with hidden := false, outputs := .empty }

namespace Graph

/-- From `n` one comes to `m` by going from known nodes to nodes that feed them. -/
def Upstream (types : Catalogue) (g : Graph) (n m : NodeId) : Prop :=
  ReflTransGen (fun a b => g.Known types a ∧ g.Feeds b a) n m

/-- The type of the node that is placed under a number. -/
def typeAt? (types : Catalogue) (g : Graph) (id : NodeId) : Option NodeType :=
  (g.nodes.get? id).bind fun node => types.get? node.type

/-- Two graphs say the same of a node: both have it, up to its place, or none has; both know its
type, up to what is hidden and which outputs are offered, or none does; and the same joints lead
into it, in the same order. -/
structure AgreeAt (types types' : Catalogue) (g g' : Graph) (id : NodeId) : Prop where
  node : (g.nodes.get? id).map Node.unplaced = (g'.nodes.get? id).map Node.unplaced
  type : (g.typeAt? types id).map NodeType.bare = (g'.typeAt? types' id).map NodeType.bare
  joints : g.jointsInto id = g'.jointsInto id

instance (types types' : Catalogue) (g g' : Graph) (id : NodeId) :
    Decidable (AgreeAt types types' g g' id) :=
  decidable_of_iff ((g.nodes.get? id).map Node.unplaced = (g'.nodes.get? id).map Node.unplaced ∧
      (g.typeAt? types id).map NodeType.bare = (g'.typeAt? types' id).map NodeType.bare ∧
      g.jointsInto id = g'.jointsInto id)
    ⟨fun ⟨hnode, htype, hjoints⟩ => ⟨hnode, htype, hjoints⟩, fun h => ⟨h.1, h.2, h.3⟩⟩

/-- All cycles upstream of `n` go through inputs that the types of their nodes declare. -/
def CyclesDeclared (types : Catalogue) (g : Graph) (n : NodeId) : Prop :=
  ∀ nodes, g.IsCycle types nodes → (∀ m ∈ nodes, g.Upstream types n m) →
    (nodes ++ nodes.head?.toList).IsChain (g.Reads types)

theorem feeds_iff_jointsInto {g : Graph} {m n : NodeId} :
    g.Feeds m n ↔ ∃ j ∈ g.jointsInto n, j.source.node = m := by
  constructor
  · rintro ⟨j, hj, hsource, hdest⟩
    exact ⟨j, mem_jointsInto.2 ⟨hj, hdest⟩, hsource⟩
  · rintro ⟨j, hj, hsource⟩
    obtain ⟨hmem, hdest⟩ := mem_jointsInto.1 hj
    exact ⟨j, hmem, hsource, hdest⟩

/-- A set of nodes that is closed under going to sources holds all that is upstream. -/
theorem Upstream.mem_of_closed {types : Catalogue} {g : Graph} {n m : NodeId}
    (h : g.Upstream types n m) {ids : List NodeId} (hn : n ∈ ids)
    (hclosed : ∀ j ∈ g.joints.entries, j.dest.node ∈ ids → j.source.node ∈ ids) : m ∈ ids := by
  induction h with
  | refl => exact hn
  | tail _ hstep ih =>
    obtain ⟨j, hj, rfl, rfl⟩ := hstep.2
    exact hclosed j hj ih

namespace AgreeAt

variable {types types' : Catalogue} {g g' : Graph} {id : NodeId}

theorem symm (h : AgreeAt types types' g g' id) : AgreeAt types' types g' g id :=
  ⟨h.node.symm, h.type.symm, h.joints.symm⟩

theorem exists_typed (h : AgreeAt types types' g g' id) {node : Node} {type : NodeType}
    (htyped : g.Typed types id node type) :
    ∃ node' type', g'.Typed types' id node' type' ∧ node'.unplaced = node.unplaced ∧
      type'.bare = type.bare := by
  have hnode := h.node
  have htype := h.type
  rw [htyped.1] at hnode
  obtain ⟨node', hnode', hsame⟩ := Option.map_eq_some_iff.1 hnode.symm
  rw [typeAt?, typeAt?, htyped.1, hnode', Option.bind_some, Option.bind_some, htyped.2] at htype
  obtain ⟨type', htype', hbare⟩ := Option.map_eq_some_iff.1 htype.symm
  exact ⟨node', type', ⟨hnode', htype'⟩, hsame, hbare⟩

theorem known (h : AgreeAt types types' g g' id) (hknown : g.Known types id) :
    g'.Known types' id := by
  obtain ⟨node, type, htyped⟩ := hknown
  obtain ⟨node', type', htyped', -⟩ := h.exists_typed htyped
  exact ⟨node', type', htyped'⟩

theorem feeds (h : AgreeAt types types' g g' id) {m : NodeId} (hfeeds : g.Feeds m id) :
    g'.Feeds m id := by
  rw [feeds_iff_jointsInto] at hfeeds ⊢
  rwa [← h.joints]

theorem reads (h : AgreeAt types types' g g' id) {m : NodeId} (hreads : g.Reads types id m) :
    g'.Reads types' id m := by
  obtain ⟨node, type, htyped, j, hj, hsource, hdest, hinput⟩ := hreads
  obtain ⟨node', type', htyped', -, hbare⟩ := h.exists_typed htyped
  have hmem : j ∈ g'.jointsInto id := h.joints ▸ mem_jointsInto.2 ⟨hj, hdest⟩
  have hinputs : type'.inputs = type.inputs := congrArg (fun t => t.inputs) hbare
  exact ⟨node', type', htyped', j, (mem_jointsInto.1 hmem).1, hsource, hdest, hinputs ▸ hinput⟩

theorem mem_keys (h : AgreeAt types types' g g' id) (hid : id ∈ g.nodes.keys) :
    id ∈ g'.nodes.keys := by
  obtain ⟨node, hnode⟩ := Roster.mem_keys_iff.1 hid
  have hsame := h.node
  rw [hnode] at hsame
  obtain ⟨node', hnode', -⟩ := Option.map_eq_some_iff.1 hsame.symm
  exact Roster.mem_keys_iff.2 ⟨node', hnode'⟩

end AgreeAt

/-- What is left out of sight has no part in compiling a node. -/
theorem outcomeOf_eq_of_agree {types types' : Catalogue} {g g' : Graph} {id : NodeId}
    (h : AgreeAt types types' g g' id) {node node' : Node} {type type' : NodeType}
    (hid : node.id = id) (hnode : node'.unplaced = node.unplaced) (htype : type'.bare = type.bare)
    {lookup lookup' : NodeId → Option Outcome}
    (hlookup : ∀ m, g.Feeds m id →
      (lookup m).map Checked.value? = (lookup' m).map Checked.value?) :
    g.outcomeOf node type lookup = g'.outcomeOf node' type' lookup' := by
  subst hid
  have hid : node'.id = node.id := congrArg (fun n => n.id) hnode
  have hbare : g.outcomeOf node type lookup =
      Fragment.compile node.unplaced type.bare (g.jointsInto node.id)
        (dependenciesOf type.bare (g.jointsInto node.id)) lookup := rfl
  have hbare' : g'.outcomeOf node' type' lookup' =
      Fragment.compile node'.unplaced type'.bare (g'.jointsInto node'.id)
        (dependenciesOf type'.bare (g'.jointsInto node'.id)) lookup' := rfl
  rw [hbare, hbare', hnode, htype, hid, ← h.joints]
  refine Fragment.compile_congr fun j hj => hlookup _ ?_
  exact feeds_iff_jointsInto.2 ⟨j, hj, rfl⟩

/-! ## Graphs that agree upstream of a node -/

theorem mem_of_mem_closed {α : Type} {l : List α} {a : α} (h : a ∈ l ++ l.head?.toList) :
    a ∈ l := by
  rcases List.mem_append.1 h with h | h
  · exact h
  · exact List.mem_of_mem_head? (Option.mem_toList.1 h)

theorem IsCycle.of_agree {types types' : Catalogue} {g g' : Graph} {nodes : List NodeId}
    (hcycle : g.IsCycle types nodes) (h : ∀ m ∈ nodes, AgreeAt types types' g g' m) :
    g'.IsCycle types' nodes where
  ne_nil := hcycle.ne_nil
  known m hm := (h m hm).known (hcycle.known m hm)
  closed := hcycle.closed.imp_of_mem_imp fun a _ ha _ hfeeds =>
    (h a (mem_of_mem_closed ha)).feeds hfeeds

theorem reads_chain_of_agree {types types' : Catalogue} {g g' : Graph} {nodes : List NodeId}
    (h : ∀ m ∈ nodes, AgreeAt types types' g g' m)
    (hreads : (nodes ++ nodes.head?.toList).IsChain (g.Reads types)) :
    (nodes ++ nodes.head?.toList).IsChain (g'.Reads types') :=
  hreads.imp_of_mem_imp fun a _ ha _ hab => (h a (mem_of_mem_closed ha)).reads hab

/-- The graphs say the same of all nodes upstream of `n`, and cycles there are declared. -/
structure AgreeUpstream (types types' : Catalogue) (g g' : Graph) (n : NodeId) : Prop where
  agree : ∀ u, g.Upstream types n u → AgreeAt types types' g g' u
  declared : g.CyclesDeclared types n

namespace AgreeUpstream

variable {types types' : Catalogue} {g g' : Graph} {n : NodeId}

theorem upstream (h : AgreeUpstream types types' g g' n) {u : NodeId} (hu : g.Upstream types n u) :
    g'.Upstream types' n u := by
  induction hu with
  | refl => exact .refl
  | tail hreach hstep ih =>
    have hagree := h.agree _ hreach
    exact ih.tail ⟨hagree.known hstep.1, hagree.feeds hstep.2⟩

theorem upstream_back (h : AgreeUpstream types types' g g' n) {u : NodeId}
    (hu : g'.Upstream types' n u) : g.Upstream types n u := by
  induction hu with
  | refl => exact .refl
  | tail hreach hstep ih =>
    have hagree := (h.agree _ ih).symm
    exact ih.tail ⟨hagree.known hstep.1, hagree.feeds hstep.2⟩

theorem symm (h : AgreeUpstream types types' g g' n) : AgreeUpstream types' types g' g n where
  agree u hu := (h.agree u (h.upstream_back hu)).symm
  declared nodes hcycle hnodes := by
    have hback : ∀ m ∈ nodes, g.Upstream types n m := fun m hm => h.upstream_back (hnodes m hm)
    have hagree : ∀ m ∈ nodes, AgreeAt types types' g g' m := fun m hm => h.agree m (hback m hm)
    have hcycle' := hcycle.of_agree fun m hm => (hagree m hm).symm
    exact reads_chain_of_agree hagree (h.declared nodes hcycle' hback)

end AgreeUpstream

end Graph

namespace Walk

variable {types : Catalogue} {g : Graph}

/-! ## Nodes on cycles -/

theorem fragment?_eq_none_of_reads_cycle {nodes : List NodeId} (hcycle : g.IsCycle types nodes)
    (hreads : (nodes ++ nodes.head?.toList).IsChain (g.Reads types)) {m : NodeId}
    (hm : m ∈ nodes) : (walk types g).fragment? m = none := by
  obtain ⟨k, hk, path, hpath⟩ := exists_cycle_mem_errorsOf hcycle
  by_contra hne
  obtain ⟨f, hf⟩ := Option.ne_none_iff_exists'.1 hne
  have hall := (exists_ok_iff (hcycle.mem_keys hm)).1 ⟨f, fragment?_eq_some_iff.1 hf⟩
  have hnone := hall k (transGen_of_closed hreads hm hk).to_reflTransGen
  rw [hnone] at hpath
  cases hpath

theorem exists_isCycle_of_recorded {m : NodeId} (h : (walk types g).recorded m ≠ []) :
    ∃ nodes, m ∈ nodes ∧ g.IsCycle types nodes := by
  obtain ⟨d, hd⟩ := List.exists_mem_of_ne_nil _ h
  obtain ⟨path, hpath, -⟩ := List.mem_map.1 hd
  obtain ⟨hmem, hhead⟩ := List.mem_filter.1 hpath
  obtain ⟨k, nodes, rfl, hk, -, hcycle⟩ := exists_cycle_of_mem_reports hmem
  obtain rfl : k = m := by simpa [List.head?_append, hk] using hhead
  exact ⟨nodes, List.mem_of_mem_head? hk, hcycle⟩

theorem fragment?_eq_none_of_not_known {m : NodeId} (h : ¬ g.Known types m) :
    (walk types g).fragment? m = none := by
  by_contra hne
  obtain ⟨f, hf⟩ := Option.ne_none_iff_exists'.1 hne
  obtain ⟨node, type, htyped, -⟩ := known_of_fragment? hf
  exact h ⟨node, type, htyped⟩

/-- Going back through nodes without a recorded cycle comes to an end wherever one starts. -/
theorem acc_unreported_walk (types : Catalogue) (g : Graph) (m : NodeId) :
    Acc (Unreported types g (walk types g)) m := by
  by_cases hknown : g.Known types m
  · obtain ⟨node, type, htyped⟩ := hknown
    obtain ⟨o, ho⟩ := exists_done types (Roster.mem_keys_iff.2 ⟨node, htyped.1⟩)
    exact (reached_walk types g).acc_unreported ho
  · exact ⟨m, fun k hk => absurd hk.1 hknown⟩

theorem isSome_of_feeds_known {m n : NodeId} (hknown : g.Known types n) (hfeeds : g.Feeds m n) :
    ((walk types g).outcome? m).isSome := by
  obtain ⟨node, type, htyped⟩ := hknown
  obtain ⟨o, ho⟩ := exists_done types (Roster.mem_keys_iff.2 ⟨node, htyped.1⟩)
  cases (reached_walk types g).slotOk n _ ho with
  | rejected hreject => exact absurd ⟨node, type, htyped⟩ hreject.not_known
  | compiled _ hfed _ => exact hfed m hfeeds

theorem map_value?_eq {w : Walk} {m : NodeId} (h : (w.outcome? m).isSome) :
    (w.outcome? m).map Checked.value? = some (w.fragment? m) := by
  obtain ⟨o, ho⟩ := Option.isSome_iff_exists.1 h
  unfold fragment?
  rw [ho]
  rfl

theorem fragment?_of_typed {m : NodeId} {node : Node} {type : NodeType}
    (htyped : g.Typed types m node type) (hrecorded : (walk types g).recorded m = []) :
    (walk types g).fragment? m =
      Checked.value? (g.outcomeOf node type (walk types g).outcome?) := by
  unfold fragment?
  rw [outcome?_of_typed htyped, hrecorded, Outcome.blockedBy_nil]
  rfl

end Walk

namespace Graph.AgreeUpstream

variable {types types' : Catalogue} {g g' : Graph} {n : NodeId}

/-- A cycle through a node upstream stays upstream. -/
theorem upstream_of_isCycle {nodes : List NodeId} (hcycle : g.IsCycle types nodes) {u : NodeId}
    (hu : u ∈ nodes) (hup : g.Upstream types n u) : ∀ m ∈ nodes, g.Upstream types n m := by
  intro m hm
  have hpath : TransGen (fun a b => g.Known types a ∧ g.Feeds b a) u m := by
    refine transGen_of_closed (hcycle.closed.imp_of_mem_imp fun a b ha _ hfeeds => ?_) hu hm
    exact ⟨hcycle.known a (mem_of_mem_closed ha), hfeeds⟩
  exact hup.trans hpath.to_reflTransGen

theorem fragment?_eq_none (h : AgreeUpstream types types' g g' n) {u : NodeId}
    (hu : g.Upstream types n u) (hrecorded : (walk types g).recorded u ≠ []) :
    (walk types g).fragment? u = none ∧ (walk types' g').fragment? u = none := by
  obtain ⟨nodes, hmem, hcycle⟩ := Walk.exists_isCycle_of_recorded hrecorded
  have hnodes := upstream_of_isCycle hcycle hmem hu
  have hagree : ∀ m ∈ nodes, AgreeAt types types' g g' m := fun m hm => h.agree m (hnodes m hm)
  have hreads := h.declared nodes hcycle hnodes
  exact ⟨Walk.fragment?_eq_none_of_reads_cycle hcycle hreads hmem,
    Walk.fragment?_eq_none_of_reads_cycle (hcycle.of_agree hagree)
      (reads_chain_of_agree hagree hreads) hmem⟩

/-- A node without a recorded cycle is compiled alike if what feeds it has come out alike. -/
theorem fragment?_eq_of_feeds (h : AgreeUpstream types types' g g' n) {u : NodeId}
    (hu : g.Upstream types n u) (hknown : g.Known types u)
    (hrecorded : (walk types g).recorded u = []) (hrecorded' : (walk types' g').recorded u = [])
    (hfed : ∀ m, g.Feeds m u → (walk types g).fragment? m = (walk types' g').fragment? m) :
    (walk types g).fragment? u = (walk types' g').fragment? u := by
  have hagree := h.agree u hu
  obtain ⟨node, type, htyped⟩ := hknown
  obtain ⟨node', type', htyped', hnode, htype⟩ := hagree.exists_typed htyped
  rw [Walk.fragment?_of_typed htyped hrecorded, Walk.fragment?_of_typed htyped' hrecorded']
  apply congrArg Checked.value?
  apply outcomeOf_eq_of_agree hagree htyped.id_eq hnode htype
  intro m hm
  have hseen := Walk.isSome_of_feeds_known ⟨node, type, htyped⟩ hm
  have hseen' := Walk.isSome_of_feeds_known ⟨node', type', htyped'⟩ (hagree.feeds hm)
  rw [Walk.map_value?_eq hseen, Walk.map_value?_eq hseen', hfed m hm]

/-- Nodes upstream have the same fragments in both graphs. -/
theorem fragment?_eq (h : AgreeUpstream types types' g g' n) {u : NodeId}
    (hu : g.Upstream types n u) :
    (walk types g).fragment? u = (walk types' g').fragment? u := by
  -- The induction goes back through the nodes without a recorded cycle in the first graph.
  induction Walk.acc_unreported_walk types g u with
  | intro u _ ih =>
    by_cases hrecorded : (walk types g).recorded u = []
    · by_cases hrecorded' : (walk types' g').recorded u = []
      · by_cases hknown : g.Known types u
        · refine h.fragment?_eq_of_feeds hu hknown hrecorded hrecorded' fun m hm => ?_
          have hmu : g.Upstream types n m := hu.tail ⟨hknown, hm⟩
          by_cases hm' : (walk types g).recorded m = []
          · exact ih m ⟨hknown, hm, hm'⟩ hmu
          · obtain ⟨hnone, hnone'⟩ := h.fragment?_eq_none hmu hm'
            rw [hnone, hnone']
        · have hknown' : ¬ g'.Known types' u := fun hk => hknown ((h.agree u hu).symm.known hk)
          rw [Walk.fragment?_eq_none_of_not_known hknown,
            Walk.fragment?_eq_none_of_not_known hknown']
      · obtain ⟨hnone', hnone⟩ := h.symm.fragment?_eq_none (h.upstream hu) hrecorded'
        rw [hnone, hnone']
    · obtain ⟨hnone, hnone'⟩ := h.fragment?_eq_none hu hrecorded
      rw [hnone, hnone']

end Graph.AgreeUpstream

/-! ## The order of fragments -/

namespace Placement

variable {types types' : Catalogue} {g g' : Graph}

/-- A turn looks at the fragment of the innermost stop; what is in front of it has a slot. -/
theorem next?_congr {s : Placement} (hsame : ∀ stop ∈ s.stops,
      (walk types g).fragment? stop.node = (walk types' g').fragment? stop.node) :
    s.next? (walk types g) = s.next? (walk types' g') := by
  obtain ⟨seen, placed, stops⟩ := s
  cases stops with
  | nil => rfl
  | cons stop rest =>
    have hstop := hsame stop List.mem_cons_self
    cases hf : (walk types g).fragment? stop.node with
    | none => simp only [next?, hf, ← hstop]
    | some f =>
      cases hnext : f.dependencies[stop.next]? with
      | none => simp only [next?, hf, ← hstop, hnext]
      | some d =>
        have hmem := List.mem_of_getElem? hnext
        have hslot : d ∈ (walk types g).slots.keys := Walk.mem_keys_of_hasInFront ⟨f, hf, hmem⟩
        have hslot' : d ∈ (walk types' g').slots.keys :=
          Walk.mem_keys_of_hasInFront ⟨f, hstop ▸ hf, hmem⟩
        simp only [next?, hf, ← hstop, hnext, hslot, hslot']

/-- Placing fragments looks only at the fragments of nodes that come up on the way. -/
theorem run_congr {P : NodeId → Prop}
    (hsame : ∀ m, P m → (walk types g).fragment? m = (walk types' g').fragment? m)
    (hclosed : ∀ n m, P n → (walk types g).HasInFront n m → P m) {s : Placement}
    (h : ∀ stop ∈ s.stops, P stop.node) : s.run (walk types g) = s.run (walk types' g') := by
  fun_induction s.run (walk types g) with
  | case1 s hhalt =>
    rw [next?_congr fun stop hstop => hsame _ (h stop hstop)] at hhalt
    exact (run_of_halted hhalt).symm
  | case2 s t hturn _ ih =>
    have hturn' : s.next? (walk types' g') = some t :=
      (next?_congr fun stop hstop => hsame _ (h stop hstop)) ▸ hturn
    rw [← run_of_next? hturn']
    apply ih
    cases turn_of_next? hturn with
    | drop | place => exact fun stop hstop => h stop (List.mem_cons_of_mem _ hstop)
    | @push seen placed id d next rest f hf hnext =>
      have hid : P id := h _ List.mem_cons_self
      simp only [List.forall_mem_cons] at h ⊢
      exact ⟨hclosed id d hid ⟨f, hf, List.mem_of_getElem? hnext⟩, h⟩
    | skip =>
      simp only [List.forall_mem_cons] at h ⊢
      exact h

end Placement

namespace Graph.AgreeUpstream

variable {types types' : Catalogue} {g g' : Graph} {n : NodeId}

theorem upstream_of_hasInFront {u d : NodeId} (hu : g.Upstream types n u)
    (h : (walk types g).HasInFront u d) : g.Upstream types n d := by
  obtain ⟨f, hf, hd⟩ := h
  obtain ⟨node, type, htyped, hdeps⟩ := Walk.known_of_fragment? hf
  rw [hdeps] at hd
  exact hu.tail ⟨⟨node, type, htyped⟩, mem_dependencies.1 hd⟩

theorem order_eq (h : AgreeUpstream types types' g g' n) :
    (walk types g).order n = (walk types' g').order n := by
  unfold Walk.order
  refine Placement.run_congr (P := g.Upstream types n) (fun m hm => h.fragment?_eq hm)
    (fun u d hu hd => upstream_of_hasInFront hu hd) fun stop hstop => ?_
  obtain rfl := List.mem_singleton.1 hstop
  exact .refl

theorem upstream_of_mem_order {f : Fragment} (hf : (walk types g).fragment? n = some f)
    {m : NodeId} (hm : m ∈ (walk types g).order n) : g.Upstream types n m := by
  have hreach := ((Walk.isOrder_order hf).mem_iff m).1 hm
  exact hreach.lift id fun a b huse => ⟨huse.unreported.1, huse.unreported.2.1⟩

theorem ok_mem_compile (h : AgreeUpstream types types' g g' n) (env : Envelope) {p : Program}
    (hp : (n, .ok p) ∈ (g.compile types env).value) :
    (n, .ok p) ∈ (g'.compile types' env).value := by
  obtain ⟨hn, f, result, hf, hresult, rfl⟩ := ok_mem_compile_iff.1 hp
  have hfragments : ((walk types g).order n).filterMap (walk types g).fragment? =
      ((walk types' g').order n).filterMap (walk types' g').fragment? := by
    rw [← h.order_eq]
    exact List.filterMap_congr fun m hm => h.fragment?_eq (upstream_of_mem_order hf hm)
  refine ok_mem_compile_iff.2 ⟨(h.agree n .refl).mem_keys hn, f, result, ?_, hresult, ?_⟩
  · rw [← h.fragment?_eq .refl, hf]
  · rw [hfragments]

end Graph.AgreeUpstream

/-! ## Changes aside -/

namespace Graph

/-- Changes of a graph and its types that do not touch what is upstream of `n`, apart from the order
and the places of nodes. -/
inductive Aside (types : Catalogue) (g : Graph) (n : NodeId) : Catalogue → Graph → Prop
  | reorder {nodes : Roster Node} (h : nodes.entries.Perm g.nodes.entries) :
    Aside types g n types ⟨nodes, g.joints⟩
  | move {node : Node} (h : node ∈ g.nodes.entries) (offset : Point) :
    Aside types g n types ⟨g.nodes.put { node with offset }, g.joints⟩
  | putNode {node : Node} (h : ¬ g.Upstream types n node.id) :
    Aside types g n types ⟨g.nodes.put node, g.joints⟩
  | eraseNode {id : NodeId} (h : ¬ g.Upstream types n id) :
    Aside types g n types ⟨g.nodes.erase id, g.joints⟩
  | putJoint {j : Joint} (h : ¬ g.Upstream types n j.dest.node) :
    Aside types g n types ⟨g.nodes, g.joints.put j⟩
  | eraseJoint {dest : Inlet} (h : ¬ g.Upstream types n dest.node) :
    Aside types g n types ⟨g.nodes, g.joints.erase dest⟩
  | putType {type : NodeType}
    (h : ∀ u, g.Upstream types n u → ∀ node ∈ g.nodes.get? u, node.type ≠ type.id) :
    Aside types g n (types.put type) g
  | eraseType {id : TypeId}
    (h : ∀ u, g.Upstream types n u → ∀ node ∈ g.nodes.get? u, node.type ≠ id) :
    Aside types g n (types.erase id) g

theorem AgreeAt.of_get? {types types' : Catalogue} {g g' : Graph} {u : NodeId}
    (hnode : g.nodes.get? u = g'.nodes.get? u)
    (htype : ∀ node ∈ g.nodes.get? u, types.get? node.type = types'.get? node.type)
    (hjoints : g.jointsInto u = g'.jointsInto u) : AgreeAt types types' g g' u := by
  refine ⟨by rw [hnode], ?_, hjoints⟩
  unfold typeAt?
  rw [← hnode]
  cases hget : g.nodes.get? u with
  | none => rfl
  | some node =>
    rw [Option.bind_some, Option.bind_some, htype node hget]

theorem Aside.agree {types types' : Catalogue} {g g' : Graph} {n : NodeId}
    (h : g.Aside types n types' g') {u : NodeId} (hu : g.Upstream types n u) :
    AgreeAt types types' g g' u := by
  have hne {id : NodeId} (hid : ¬ g.Upstream types n id) : u ≠ id := by
    rintro rfl
    exact hid hu
  cases h with
  | reorder hperm =>
    exact .of_get? (Roster.get?_eq_of_mem_iff (fun _ => hperm.mem_iff.symm) u) (fun _ _ => rfl) rfl
  | @move node hnode offset =>
    have hput := Roster.get?_put g.nodes { node with offset } u
    by_cases hid : u = node.id
    · subst hid
      have hold : g.nodes.get? node.id = some node := Roster.get?_key hnode
      have hnew := hput.trans (if_pos rfl)
      refine ⟨?_, ?_, rfl⟩
      · rw [hold, hnew]
        rfl
      · rw [typeAt?, typeAt?, hold, hnew]
        rfl
    · exact .of_get? (hput.trans (if_neg hid)).symm (fun _ _ => rfl) rfl
  | @putNode node hid =>
    have hput := Roster.get?_put g.nodes node u
    exact .of_get? (hput.trans (if_neg (hne hid))).symm (fun _ _ => rfl) rfl
  | eraseNode hid =>
    refine .of_get? ?_ (fun _ _ => rfl) rfl
    rw [Roster.get?_erase, if_neg (hne hid)]
  | @putJoint j hid =>
    refine .of_get? rfl (fun _ _ => rfl) (Roster.filter_entries_put _ fun y hy => ?_).symm
    have hdest : y.dest = j.dest := hy
    simpa [hdest] using (hne hid).symm
  | @eraseJoint dest hid =>
    refine .of_get? rfl (fun _ _ => rfl) (Roster.filter_entries_erase _ fun y hy => ?_).symm
    have hdest : y.dest = dest := hy
    simpa [hdest] using (hne hid).symm
  | @putType type hid =>
    refine .of_get? rfl (fun node hnode => ?_) rfl
    rw [Roster.get?_put]
    exact (if_neg (hid u hu node hnode)).symm
  | @eraseType id hid =>
    refine .of_get? rfl (fun node hnode => ?_) rfl
    rw [Roster.get?_erase, if_neg (hid u hu node hnode)]

/-- The node has a program in both graphs or in none, and then the same one. -/
def SamePreview (types types' : Catalogue) (env : Envelope) (g g' : Graph) (n : NodeId) : Prop :=
  ((∃ p, (n, .ok p) ∈ (g.compile types env).value) ↔
    ∃ p, (n, .ok p) ∈ (g'.compile types' env).value) ∧
  ∀ p p', (n, .ok p) ∈ (g.compile types env).value → (n, .ok p') ∈ (g'.compile types' env).value →
    p.lines = p'.lines

theorem AgreeUpstream.samePreview {types types' : Catalogue} {g g' : Graph} {n : NodeId}
    (h : AgreeUpstream types types' g g' n) (env : Envelope) :
    SamePreview types types' env g g' n := by
  refine ⟨⟨fun ⟨p, hp⟩ => ⟨p, h.ok_mem_compile env hp⟩,
    fun ⟨p, hp⟩ => ⟨p, h.symm.ok_mem_compile env hp⟩⟩, fun p p' hp hp' => ?_⟩
  have hboth := (mem_compile_iff.1 (h.ok_mem_compile env hp)).2
  have hsame := (mem_compile_iff.1 hp').2
  rw [Except.ok.inj (hboth.trans hsame.symm)]

end Graph

/-- **A preview depends only on what is upstream.** Take a node such that all cycles upstream of it
go through declared inputs. In every graph that says the same of the nodes upstream, it has a
program if it has one in the given graph, and then the same one; whatever else there is, and in
whatever order the nodes are listed. So listing the nodes in another order, moving them, or adding,
replacing and removing nodes, joints and types elsewhere makes no difference. -/
theorem preview_eq_of_agree_upstream (types : Catalogue) (env : Envelope) (g : Graph) (n : NodeId)
    (hcycles : g.CyclesDeclared types n) :
    (∀ types' g', (∀ u, g.Upstream types n u → Graph.AgreeAt types types' g g' u) →
      Graph.SamePreview types types' env g g' n) ∧
    ∀ types' g', g.Aside types n types' g' → Graph.SamePreview types types' env g g' n := by
  refine ⟨fun types' g' hagree => ?_, fun types' g' haside => ?_⟩
  · exact Graph.AgreeUpstream.samePreview ⟨hagree, hcycles⟩ env
  · exact Graph.AgreeUpstream.samePreview ⟨fun u hu => haside.agree hu, hcycles⟩ env

namespace Sample

/-- The same types, hidden and with another output, behind one more type. -/
def otherTypes : Catalogue :=
  .ofList (NodeType.new ⟨"Test", "Other"⟩ ::
    types.entries.map fun t => t.hide.withOutput .red)

/-- The nodes of the diamond, listed in another order and partly moved, beside a node that reads
itself. -/
def surrounded : Graph :=
  ⟨.ofList [node 5 "Negate", node 1 "One", node 2 "Negate", node 4 "Negate",
      { node 3 "Negate" with offset := ⟨.zero, { (.zero : Double) with negative := true }⟩ }],
    .ofList [joint 5 5 "X", joint 3 5 "Y", joint 1 2 "X", joint 1 3 "Z", joint 4 3 "W",
      joint 2 3 "X"]⟩

end Sample

theorem preview_eq_of_agree_upstream_surrounded :
    Sample.diamond.CyclesDeclared Sample.types ⟨3⟩ ∧
      ∃ p, (⟨3⟩, .ok p) ∈ (Sample.surrounded.compile Sample.otherTypes .customary).value := by
  have hcycles : Sample.diamond.CyclesDeclared Sample.types ⟨3⟩ := fun nodes hcycle =>
    absurd hcycle ((Walk.cyclePaths_eq_nil_iff Sample.types Sample.diamond).1 (by decide_cbv) nodes)
  have hagree : ∀ u ∈ [⟨3⟩, ⟨1⟩, ⟨4⟩, ⟨2⟩],
      Graph.AgreeAt Sample.types Sample.otherTypes Sample.diamond Sample.surrounded u := by
    decide_cbv
  obtain ⟨hsame, -⟩ :=
    preview_eq_of_agree_upstream Sample.types .customary Sample.diamond ⟨3⟩ hcycles
  have hupstream := hsame Sample.otherTypes Sample.surrounded fun u hu =>
    hagree u (hu.mem_of_closed (by decide) (by decide_cbv))
  exact ⟨hcycles, hupstream.1.1 (Graph.exists_ok_mem_compile _ _ (by decide_cbv) (by decide_cbv))⟩

end ShaderNodes
