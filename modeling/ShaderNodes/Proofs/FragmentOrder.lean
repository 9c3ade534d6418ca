import ShaderNodes.Proofs.Previews

/-!
# The order of fragments

The program of a node holds the fragments of all nodes that can be reached from it by going to nodes
in front that have succeeded. They are placed depth first, each after those in front of it; nodes in
front that have failed are met on the way and dropped. This works because nodes that have succeeded
never use each other in a circle: each cycle has a node with a recorded cycle, and such a node has
failed.

* `Walk.not_transGen_uses`: nodes that have succeeded do not use each other in a circle;
* `Walk.Placing`, `Walk.Placing.of_next?`: what holds while fragments are placed, turn by turn;
* `Walk.IsOrder`: the order in which fragments end up;
* `preview_lines_in_order`: the lines of a program.
-/

namespace ShaderNodes

open Relation

/-! ## The turns of the placing -/

namespace Placement

variable {w : Walk} {s t : Placement}

/-- There is no further turn when all stops have been left. -/
theorem stops_of_halted (h : s.next? w = none) : s.stops = [] := by
  obtain ⟨seen, placed, stops⟩ := s
  cases stops with
  | nil => rfl
  | cons stop rest =>
    simp only [next?] at h
    split at h
    · cases h
    · split at h
      · cases h
      · split at h <;> cases h

theorem run_of_next? (h : s.next? w = some t) : t.run w = s.run w := by
  conv_rhs => rw [run]
  split
  · next hhalt =>
    rw [hhalt] at h
    cases h
  · next t' hnext =>
    rw [hnext] at h
    cases h
    rfl

theorem run_of_halted (h : s.next? w = none) :
    s.run w = s.placed.reverse := by
  rw [run]
  split
  · rfl
  · next t hnext =>
    rw [hnext] at h
    cases h

end Placement

namespace Walk

/-! ## Nodes in front that have succeeded -/

/-- The node `n` has succeeded, and `m` is in front of it. -/
def HasInFront (w : Walk) (n m : NodeId) : Prop := ∃ f, w.fragment? n = some f ∧ m ∈ f.dependencies

/-- Both nodes have succeeded, and `m` is in front of `n`. -/
def Uses (w : Walk) (n m : NodeId) : Prop :=
  (∃ f, w.fragment? n = some f ∧ m ∈ f.dependencies) ∧ ∃ f, w.fragment? m = some f

variable {types : Catalogue} {g : Graph}

theorem known_of_fragment? {n : NodeId} {f : Fragment} (h : (walk types g).fragment? n = some f) :
    ∃ node type, g.Typed types n node type ∧ f.dependencies = g.dependencies type n := by
  obtain ⟨-, node, type, htyped, hcompile⟩ := of_outcome?_ok (fragment?_eq_some_iff.1 h)
  refine ⟨node, type, htyped, ?_⟩
  rw [Fragment.dependencies_of_compile hcompile, htyped.id_eq]

/-- The nodes in front of a node that has succeeded have slots. -/
theorem mem_keys_of_hasInFront {n m : NodeId} (h : (walk types g).HasInFront n m) :
    m ∈ (walk types g).slots.keys := by
  obtain ⟨f, hf, hm⟩ := h
  obtain ⟨node, type, -, hdeps⟩ := known_of_fragment? hf
  rw [hdeps] at hm
  rw [(reached_walk types g).tracked.keys]
  exact mem_keys_start.2 (Or.inr ⟨n, Graph.mem_dependencies.1 hm⟩)

theorem Uses.unreported {n m : NodeId} (h : (walk types g).Uses n m) :
    Unreported types g (walk types g) m n := by
  obtain ⟨⟨f, hn, hmem⟩, f', hm⟩ := h
  obtain ⟨node, type, htyped, hdeps⟩ := known_of_fragment? hn
  rw [hdeps] at hmem
  exact ⟨⟨node, type, htyped⟩, Graph.mem_dependencies.1 hmem,
    (of_outcome?_ok (fragment?_eq_some_iff.1 hm)).1⟩

/-- Nodes that have succeeded do not use each other in a circle. -/
theorem not_transGen_uses (types : Catalogue) (g : Graph) (n : NodeId) :
    ¬ TransGen (walk types g).Uses n n := by
  intro hcycle
  obtain ⟨m, ⟨⟨f, hf, -⟩, -⟩, -⟩ := TransGen.head'_iff.1 hcycle
  have hdone := state?_of_outcome? (fragment?_eq_some_iff.1 hf)
  refine not_transGen_of_acc ((reached_walk types g).acc_unreported hdone) ?_
  exact transGen_swap.1 (hcycle.lift id fun _ _ h => h.unreported)

/-! ## Placing fragments -/

/-- An order in which fragments can stand: each of the nodes that can be reached from `root` once,
`root` at the end, and every node after those that it uses. -/
structure IsOrder (w : Walk) (root : NodeId) (order : List NodeId) : Prop where
  nodup : order.Nodup
  last : order.getLast? = some root
  mem_iff : ∀ m, m ∈ order ↔ ReflTransGen w.Uses root m
  before : ∀ front m back, order = front ++ m :: back → ∀ d, w.Uses m d → d ∈ front

/-- Whatever the node uses has been met, apart from what is pending. -/
def Stop.Fits (w : Walk) (seen : List NodeId) (s : Stop) : Prop :=
  ∀ d, w.Uses s.node d → d ∈ s.pending w ∨ d ∈ seen

namespace Stop

variable {w : Walk} {seen seen' : List NodeId} {id d : NodeId} {next : Nat} {f : Fragment}

theorem hasInFront_of_mem_pending {s : Stop} (h : d ∈ s.pending w) : w.HasInFront s.node d := by
  unfold pending at h
  split at h
  · cases h
  · next f hf => exact ⟨f, hf, List.mem_of_mem_drop h⟩

/-- At first everything in front is pending. -/
theorem Fits.opening (w : Walk) (seen : List NodeId) (id : NodeId) : Stop.Fits w seen ⟨id, 0⟩ := by
  intro d hd
  obtain ⟨⟨f, hf, hmem⟩, -⟩ := hd
  rw [pending_of_fragment? hf]
  exact Or.inl hmem

theorem Fits.mono {s : Stop} (h : s.Fits w seen) (hseen : ∀ k ∈ seen, k ∈ seen') : s.Fits w seen' :=
  fun d hd => (h d hd).imp_right (hseen d)

/-- A node that has been met is no longer pending, and neither is one that is not used. -/
theorem Fits.advance (h : Stop.Fits w seen ⟨id, next⟩) (hf : w.fragment? id = some f)
    (hnext : f.dependencies[next]? = some d) (hd : w.Uses id d → d ∈ seen) :
    Stop.Fits w seen ⟨id, next + 1⟩ := by
  intro k hk
  rcases h k hk with hpending | hseen
  · rw [pending_eq_cons hf hnext] at hpending
    rcases List.mem_cons.1 hpending with rfl | hpending
    · exact Or.inr (hd hk)
    · exact Or.inl hpending
  · exact Or.inr hseen

end Stop

/-- What holds while fragments are placed. -/
structure Placing (w : Walk) (root : NodeId) (s : Placement) : Prop where
  rooted : ∃ f, w.fragment? root = some f
  nodup : (s.stops.map Stop.node ++ s.placed).Nodup
  mem_seen : ∀ m ∈ s.stops.map Stop.node ++ s.placed, m ∈ s.seen
  /-- A node that has been met and is neither on the way nor placed has failed. -/
  met : ∀ m ∈ s.seen, ∀ f, w.fragment? m = some f → m ∈ s.stops.map Stop.node ++ s.placed
  reachable : ∀ m ∈ s.seen, ∀ f, w.fragment? m = some f → ReflTransGen w.Uses root m
  succeeded : ∀ m ∈ s.placed, ∃ f, w.fragment? m = some f
  fits : ∀ stop ∈ s.stops, stop.Fits w s.seen
  chain : (s.stops.map Stop.node).IsChain fun n m => w.HasInFront m n
  behind : ∀ front m back, s.placed = front ++ m :: back → ∀ d, w.Uses m d → d ∈ back
  last : (s.stops.map Stop.node).getLast?.or s.placed.head? = some root

namespace Placing

variable {w : Walk} {root : NodeId} {seen placed : List NodeId} {stops : List Stop} {id d : NodeId}
  {next : Nat} {f : Fragment}

theorem start (h : w.fragment? root = some f) : Placing w root (.start root) where
  rooted := ⟨f, h⟩
  nodup := by simp [Placement.start]
  mem_seen m hm := hm
  met m hm _ _ := hm
  reachable m hm _ _ := by rw [List.mem_singleton.1 hm]
  succeeded m hm := by cases hm
  fits s hs := List.mem_singleton.1 hs ▸ .opening w _ root
  chain := by simp [Placement.start]
  behind front m back h := by simp [Placement.start] at h
  last := rfl

/-- A node in front is passed over if it has been met or has no slot, so that it has failed. -/
theorem skip (h : Placing w root ⟨seen, placed, ⟨id, next⟩ :: stops⟩) (hf : w.fragment? id = some f)
    (hnext : f.dependencies[next]? = some d) (hd : ¬ (d ∈ w.slots.keys ∧ d ∉ seen)) :
    Placing w root ⟨seen, placed, ⟨id, next + 1⟩ :: stops⟩ where
  rooted := h.rooted
  nodup := h.nodup
  mem_seen := h.mem_seen
  met := h.met
  reachable := h.reachable
  succeeded := h.succeeded
  fits s hs := by
    rcases List.mem_cons.1 hs with rfl | hs
    · refine (h.fits _ List.mem_cons_self).advance hf hnext fun huse => ?_
      obtain ⟨f', hf'⟩ := huse.2
      by_contra hseen
      exact hd ⟨mem_keys_of_fragment? hf', hseen⟩
    · exact h.fits s (List.mem_cons_of_mem _ hs)
  chain := h.chain
  behind := h.behind
  last := h.last

/-- A node in front that has not been met is gone to, whether it has succeeded or not. -/
theorem push (h : Placing w root ⟨seen, placed, ⟨id, next⟩ :: stops⟩) (hf : w.fragment? id = some f)
    (hnext : f.dependencies[next]? = some d) (hd : d ∉ seen) :
    Placing w root ⟨d :: seen, placed, ⟨d, 0⟩ :: ⟨id, next + 1⟩ :: stops⟩ := by
  have hfront : w.HasInFront id d := ⟨f, hf, List.mem_of_getElem? hnext⟩
  have hid : id ∈ seen := h.mem_seen id List.mem_cons_self
  have hgrow : ∀ k ∈ seen, k ∈ d :: seen := fun k hk => List.mem_cons_of_mem _ hk
  refine ⟨h.rooted, ?_, fun m hm => ?_, fun m hm f' hf' => ?_, fun m hm f' hf' => ?_, h.succeeded,
    fun s hs => ?_, ?_, h.behind, ?_⟩
  · exact List.nodup_cons.2 ⟨fun hmem => hd (h.mem_seen d hmem), h.nodup⟩
  · rcases List.mem_cons.1 hm with rfl | hm
    · exact List.mem_cons_self
    · exact hgrow m (h.mem_seen m hm)
  · rcases List.mem_cons.1 hm with rfl | hm
    · exact List.mem_cons_self
    · exact List.mem_cons_of_mem _ (h.met m hm f' hf')
  · rcases List.mem_cons.1 hm with rfl | hm
    · exact (h.reachable id hid f hf).tail ⟨hfront, f', hf'⟩
    · exact h.reachable m hm f' hf'
  · rcases List.mem_cons.1 hs with rfl | hs
    · exact .opening w _ d
    · rcases List.mem_cons.1 hs with rfl | hs
      · exact ((h.fits _ List.mem_cons_self).mono hgrow).advance hf hnext fun _ =>
          List.mem_cons_self
      · exact (h.fits s (List.mem_cons_of_mem _ hs)).mono hgrow
  · exact List.isChain_cons_cons.2 ⟨hfront, h.chain⟩
  · rw [List.map_cons, List.map_cons, List.getLast?_cons_cons]
    exact h.last

/-- A node that has failed is dropped. It is not the root, so there is another one below it. -/
theorem drop (h : Placing w root ⟨seen, placed, ⟨id, next⟩ :: stops⟩) (hf : w.fragment? id = none) :
    Placing w root ⟨seen, placed, stops⟩ := by
  refine ⟨h.rooted, (List.nodup_cons.1 h.nodup).2,
    fun m hm => h.mem_seen m (List.mem_cons_of_mem _ hm), fun m hm f' hf' => ?_, h.reachable,
    h.succeeded, fun s hs => h.fits s (List.mem_cons_of_mem _ hs), h.chain.tail, h.behind, ?_⟩
  · rcases List.mem_cons.1 (h.met m hm f' hf') with rfl | hmem
    · rw [hf] at hf'
      cases hf'
    · exact hmem
  · have hlast := h.last
    cases stops with
    | nil =>
      obtain rfl : id = root := Option.some.inj hlast
      obtain ⟨f', hf'⟩ := h.rooted
      rw [hf] at hf'
      cases hf'
    | cons s stops => rwa [List.map_cons, List.map_cons, List.getLast?_cons_cons] at hlast

/-- Below a node that has succeeded, all stops have, and each uses the one above it. -/
theorem isChain_uses {ids : List NodeId} (h : ids.IsChain fun n m => w.HasInFront m n)
    (hhead : ∀ n ∈ ids.head?, ∃ f, w.fragment? n = some f) :
    ids.IsChain fun n m => w.Uses m n := by
  induction ids with
  | nil => exact .nil
  | cons n ids ih =>
    cases ids with
    | nil => exact .singleton n
    | cons m ids =>
      obtain ⟨hfront, hrest⟩ := List.isChain_cons_cons.1 h
      refine List.isChain_cons_cons.2 ⟨⟨hfront, hhead n rfl⟩, ih hrest fun k hk => ?_⟩
      obtain rfl : m = k := Option.some.inj hk
      exact hfront.imp fun _ hf => hf.1

/-- The nodes on the way to a stop that has succeeded have the stop in front of them. -/
theorem transGen_of_mem_stops {m : NodeId} (h : Placing w root ⟨seen, placed, ⟨id, next⟩ :: stops⟩)
    (hf : w.fragment? id = some f) (hm : m ∈ stops.map Stop.node) : TransGen w.Uses m id := by
  obtain ⟨before, after, hsplit⟩ := List.append_of_mem hm
  have hchain := isChain_uses h.chain fun n hn => ⟨f, Option.some.inj hn ▸ hf⟩
  rw [List.map_cons, hsplit] at hchain
  have hfront : ((id :: before ++ [m]) ++ after).IsChain fun n m => w.Uses m n := by
    simpa using hchain
  exact transGen_swap.1 (transGen_of_isChain hfront.left_of_append)

/-- What a node uses that has nothing pending has its place: it has been met, and it cannot be on
the way to the node. -/
theorem mem_placed_of_uses (hacyclic : ∀ n, ¬ TransGen w.Uses n n)
    (h : Placing w root ⟨seen, placed, ⟨id, next⟩ :: stops⟩) (hf : w.fragment? id = some f)
    (hnext : f.dependencies[next]? = none) (hd : w.Uses id d) : d ∈ placed := by
  have hpending : Stop.pending w ⟨id, next⟩ = [] := by
    rw [Stop.pending_of_fragment? hf, List.drop_eq_nil_iff]
    exact List.getElem?_eq_none_iff.1 hnext
  have hseen : d ∈ seen := (h.fits _ List.mem_cons_self d hd).resolve_left (by simp [hpending])
  obtain ⟨f', hf'⟩ := hd.2
  rcases List.mem_append.1 (h.met d hseen f' hf') with hstop | hplaced
  · rcases List.mem_cons.1 hstop with rfl | hstop
    · exact absurd (.single hd) (hacyclic d)
    · exact absurd ((h.transGen_of_mem_stops hf hstop).tail hd) (hacyclic d)
  · exact hplaced

/-- A node that has succeeded and has nothing pending is placed. -/
theorem place (hacyclic : ∀ n, ¬ TransGen w.Uses n n)
    (h : Placing w root ⟨seen, placed, ⟨id, next⟩ :: stops⟩) (hf : w.fragment? id = some f)
    (hnext : f.dependencies[next]? = none) : Placing w root ⟨seen, id :: placed, stops⟩ := by
  have hperm : (stops.map Stop.node ++ id :: placed).Perm (id :: (stops.map Stop.node ++ placed)) :=
    List.perm_middle
  refine ⟨h.rooted, hperm.nodup_iff.2 h.nodup, fun m hm => h.mem_seen m (hperm.mem_iff.1 hm),
    fun m hm f' hf' => hperm.mem_iff.2 (h.met m hm f' hf'), h.reachable, fun m hm => ?_,
    fun s hs => h.fits s (List.mem_cons_of_mem _ hs), h.chain.tail,
    fun front m back hsplit d hd => ?_, ?_⟩
  · rcases List.mem_cons.1 hm with rfl | hm
    · exact ⟨f, hf⟩
    · exact h.succeeded m hm
  · cases front with
    | nil =>
      obtain ⟨rfl, rfl⟩ := List.cons.inj hsplit
      exact h.mem_placed_of_uses hacyclic hf hnext hd
    | cons a front =>
      obtain ⟨-, hsplit⟩ := List.cons.inj hsplit
      exact h.behind front m back hsplit d hd
  · have hlast := h.last
    cases stops with
    | nil => exact hlast
    | cons s stops =>
      rw [List.map_cons, List.map_cons, List.getLast?_cons_cons] at hlast
      rw [List.map_cons]
      cases hs : (s.node :: stops.map Stop.node).getLast? with
      | none => simp at hs
      | some last => rwa [hs] at hlast

/-- When nothing is left, the placed nodes stand in order. -/
theorem isOrder (h : Placing w root ⟨seen, placed, []⟩) : w.IsOrder root placed.reverse where
  nodup := List.nodup_reverse.2 h.nodup
  last := by
    rw [List.getLast?_reverse]
    exact h.last
  mem_iff m := by
    rw [List.mem_reverse]
    constructor
    · intro hm
      obtain ⟨f, hf⟩ := h.succeeded m hm
      exact h.reachable m (h.mem_seen m hm) f hf
    · intro hreach
      induction hreach with
      | refl => exact List.mem_of_mem_head? h.last
      | @tail a b _ huse ih =>
        obtain ⟨front, back, hsplit⟩ := List.append_of_mem ih
        have hb := h.behind front a back hsplit b huse
        simp [hsplit, hb]
  before front m back hsplit d hd := by
    have hplaced : placed = back.reverse ++ m :: front.reverse := by
      rw [← placed.reverse_reverse, hsplit]
      simp
    exact List.mem_reverse.1 (h.behind _ m _ hplaced d hd)

theorem of_next? {s t : Placement} (hacyclic : ∀ n, ¬ TransGen w.Uses n n) (h : Placing w root s)
    (hturn : s.next? w = some t) : Placing w root t := by
  cases Placement.turn_of_next? hturn with
  | drop hf => exact h.drop hf
  | place hf hnext => exact h.place hacyclic hf hnext
  | push hf hnext hd => exact h.push hf hnext hd.2
  | skip hf hnext hd => exact h.skip hf hnext hd

/-- Placing fragments ends with an order. -/
theorem isOrder_run {s : Placement} (hacyclic : ∀ n, ¬ TransGen w.Uses n n)
    (h : Placing w root s) : w.IsOrder root (s.run w) := by
  fun_induction s.run w with
  | case1 s hhalt =>
    obtain ⟨seen, placed, stops⟩ := s
    obtain rfl : stops = [] := Placement.stops_of_halted hhalt
    exact h.isOrder
  | case2 s t hnext _ ih => exact ih (h.of_next? hacyclic hnext)

end Placing

/-- The fragments of the program of a node stand in order. -/
theorem isOrder_order {n : NodeId} {f : Fragment} (h : (walk types g).fragment? n = some f) :
    (walk types g).IsOrder n ((walk types g).order n) :=
  (Placing.start h).isOrder_run (not_transGen_uses types g)

theorem IsOrder.exists_fragment {w : Walk} {root : NodeId} {order : List NodeId} {f : Fragment}
    (h : w.IsOrder root order) (hroot : w.fragment? root = some f) {m : NodeId} (hm : m ∈ order) :
    ∃ f, w.fragment? m = some f := by
  rcases ((h.mem_iff m).1 hm).cases_tail with rfl | ⟨_, -, huse⟩
  · exact ⟨f, hroot⟩
  · exact huse.2

theorem IsOrder.map_fragment? {w : Walk} {root : NodeId} {order : List NodeId} {f : Fragment}
    (h : w.IsOrder root order) (hroot : w.fragment? root = some f) :
    order.map w.fragment? = (order.filterMap w.fragment?).map some := by
  have hall := fun m => h.exists_fragment hroot (m := m)
  clear h
  induction order with
  | nil => rfl
  | cons m order ih =>
    obtain ⟨f, hf⟩ := hall m List.mem_cons_self
    have hrest := ih fun k hk => hall k (List.mem_cons_of_mem _ hk)
    simp only [List.map_cons, List.filterMap_cons, hf, hrest]

/-- The source of every declared input of a node stands in front of the node. -/
theorem IsOrder.exists_source_before {root : NodeId} {order front back : List NodeId} {m : NodeId}
    (h : (walk types g).IsOrder root order) (hsplit : order = front ++ m :: back) {f : Fragment}
    (hf : (walk types g).fragment? m = some f) {node : Node} {type : NodeType}
    (htyped : g.Typed types m node type) {input : String} (hinput : input ∈ type.inputs.entries) :
    ∃ j ∈ g.joints.entries, j.dest = ⟨m, input⟩ ∧ j.source.node ∈ front := by
  obtain ⟨j, hj, hdest, source, hsource⟩ := exists_source (fragment?_eq_some_iff.1 hf) htyped hinput
  obtain ⟨node', type', htyped', hdeps⟩ := known_of_fragment? hf
  obtain ⟨rfl, rfl⟩ := htyped.unique htyped'
  have hmem : j.source.node ∈ f.dependencies := by
    rw [hdeps]
    exact Graph.mem_dependencies.2 ⟨j, hj, rfl, by rw [hdest]⟩
  exact ⟨j, hj, hdest,
    h.before front m back hsplit _ ⟨⟨f, hf, hmem⟩, source, fragment?_eq_some_iff.2 hsource⟩⟩

end Walk

/-- **The lines of a program.** Between the fixed lines stand the global declarations, each once,
and the code of the fragments of all nodes that can be reached by going to nodes in front that have
succeeded: each of them once, the node itself at the end, and every node after those in front of it
that have succeeded, such as the sources of its declared inputs. The last statement hands the result
of the node to the screen, a scalar as a shade of gray. -/
theorem preview_lines_in_order (types : Catalogue) (env : Envelope) (g : Graph) (n : NodeId)
    (p : Program) (h : (n, .ok p) ∈ (g.compile types env).value) :
    ∃ (order : List NodeId) (fragments : List Fragment) (f : Fragment) (result : Variable)
        (sink : String),
      order.map (walk types g).fragment? = fragments.map some ∧
      (walk types g).fragment? n = some f ∧ f.output? .all = some result ∧
      p.lines = [env.version, env.precision]
        ++ (fragments.flatMap fun f => f.globals.entries).eraseDups ++ [env.entryPoint]
        ++ (fragments.flatMap Fragment.code ++ [sink]).map (fun line => env.indent ++ line)
        ++ ["\x7d"] ∧
      (sink = match result.type with
        | .scalar => env.sink ++ " = vec4(" ++ result.name ++ ", " ++ result.name ++ ", "
          ++ result.name ++ ", 1.0);"
        | .color => env.sink ++ " = vec4(" ++ result.name ++ ".rgb, 1.0);") ∧
      order.Nodup ∧ order.getLast? = some n ∧
      (∀ m, m ∈ order ↔ ReflTransGen (walk types g).Uses n m) ∧
      ∀ front m back, order = front ++ m :: back →
        (∀ d, (walk types g).Uses m d → d ∈ front) ∧
        ∀ node type, g.Typed types m node type → ∀ input ∈ type.inputs.entries,
          ∃ j ∈ g.joints.entries, j.dest = ⟨m, input⟩ ∧ j.source.node ∈ front := by
  obtain ⟨-, f, result, hf, hresult, rfl⟩ := Graph.ok_mem_compile_iff.1 h
  have horder := Walk.isOrder_order hf
  refine ⟨_, _, f, result, Program.sinkStatement env result, horder.map_fragment? hf, hf, hresult,
    ?_, rfl, horder.nodup, horder.last, horder.mem_iff, ?_⟩
  · rw [← firstOccurrences_eq_eraseDups]
    rfl
  · intro front m back hsplit
    refine ⟨horder.before front m back hsplit, fun node type htyped input hinput => ?_⟩
    have hmem : m ∈ (walk types g).order n := hsplit ▸ List.mem_append_right _ List.mem_cons_self
    obtain ⟨f', hf'⟩ := horder.exists_fragment hf hmem
    exact horder.exists_source_before hsplit hf' htyped hinput

namespace Sample

/-- A node that reads another one and has two more in front of it, at inputs which its type does not
declare: one that the other reads too, and one that fails. -/
def diamond : Graph :=
  ⟨.ofList [node 3 "Negate", node 4 "Negate", node 2 "Negate", node 1 "One"],
    .ofList [joint 1 3 "Z", joint 4 3 "W", joint 2 3 "X", joint 1 2 "X"]⟩

end Sample

theorem preview_lines_in_order_diamond :
    ∃ p, (⟨3⟩, .ok p) ∈ (Sample.diamond.compile Sample.types .customary).value ∧
      ∃ (order : List NodeId) (fragments : List Fragment),
        order.map (walk Sample.types Sample.diamond).fragment? = fragments.map some ∧
        p.lines = ["#version 100", "precision mediump float;"]
          ++ (fragments.flatMap fun f => f.globals.entries).eraseDups ++ ["void main( void ) \x7b"]
          ++ (fragments.flatMap Fragment.code
            ++ ["gl_FragColor = vec4(node3_result, node3_result, node3_result, 1.0);"]).map
            (fun line => "  " ++ line)
          ++ ["\x7d"] ∧
        order.Nodup ∧ order.getLast? = some ⟨3⟩ ∧
        ∀ m, m ∈ order ↔ ReflTransGen (walk Sample.types Sample.diamond).Uses ⟨3⟩ m := by
  obtain ⟨p, hp⟩ : ∃ p, (⟨3⟩, .ok p) ∈ (Sample.diamond.compile Sample.types .customary).value :=
    Graph.exists_ok_mem_compile _ _ (by decide_cbv) (by decide_cbv)
  obtain ⟨order, fragments, f, result, sink, hfragments, hf, hresult, hlines, hsink, hnodup, hlast,
    hmem, -⟩ := preview_lines_in_order Sample.types .customary Sample.diamond ⟨3⟩ p hp
  have hshown : ((walk Sample.types Sample.diamond).fragment? ⟨3⟩).bind
      (fun f => f.output? .all) = some ⟨"node3_result", .scalar⟩ := by decide_cbv
  rw [hf, Option.bind_some, hresult] at hshown
  obtain rfl := Option.some.inj hshown
  obtain rfl : sink = "gl_FragColor = vec4(node3_result, node3_result, node3_result, 1.0);" := by
    rw [hsink]
    decide
  exact ⟨p, hp, order, fragments, hfragments, hlines, hnodup, hlast, hmem⟩

end ShaderNodes
