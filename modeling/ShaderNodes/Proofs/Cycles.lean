import ShaderNodes.Proofs.Outcomes

/-!
# Every cycle is noticed

When a node is settled, each node in front of it has been settled before or has a cycle recorded
against it. So going back from a settled node through nodes without a recorded cycle comes to an
end, and no cycle of joints can consist of such nodes alone.

* `Graph.IsCycle`: cycles of joints through known nodes;
* `Position.Reached.acc_unreported`: going back through unreported nodes comes to an end;
* `Walk.exists_recorded_of_isCycle`: some node of every cycle has a cycle recorded against it.
-/

namespace ShaderNodes

open Relation

/-! ## Cycles of joints -/

/-- The nodes are known, each is fed by the next one, and the last one by the first. -/
structure Graph.IsCycle (types : Catalogue) (g : Graph) (nodes : List NodeId) : Prop where
  ne_nil : nodes ≠ []
  known : ∀ n ∈ nodes, g.Known types n
  closed : (nodes ++ nodes.head?.toList).IsChain fun n m => g.Feeds m n

instance (types : Catalogue) (g : Graph) (nodes : List NodeId) :
    Decidable (g.IsCycle types nodes) :=
  decidable_of_iff (nodes ≠ [] ∧ (∀ n ∈ nodes, g.Known types n) ∧
      (nodes ++ nodes.head?.toList).IsChain fun n m => g.Feeds m n)
    ⟨fun ⟨hne, hknown, hclosed⟩ => ⟨hne, hknown, hclosed⟩, fun h => ⟨h.1, h.2, h.3⟩⟩

/-- A chain from `a` to `b` is a path. -/
theorem transGen_of_isChain {α : Type} {r : α → α → Prop} {a b : α} {l : List α}
    (h : (a :: l ++ [b]).IsChain r) : TransGen r a b := by
  induction l generalizing a with
  | nil => exact .single (List.isChain_pair.1 h)
  | cons c l ih =>
    obtain ⟨hac, hrest⟩ := List.isChain_cons_cons.1 h
    exact .head hac (ih hrest)

/-- A closed chain leads from each of its elements to each of them. -/
theorem transGen_of_closed {α : Type} {r : α → α → Prop} {l : List α}
    (h : (l ++ l.head?.toList).IsChain r) {a b : α} (ha : a ∈ l) (hb : b ∈ l) :
    TransGen r a b := by
  obtain ⟨first, rest, rfl⟩ := List.exists_cons_of_ne_nil (List.ne_nil_of_mem ha)
  have hback : TransGen r a first := by
    obtain ⟨before, after, hsplit⟩ := List.append_of_mem ha
    rw [hsplit, List.append_assoc] at h
    have hhead : (before ++ a :: after).head? = some first := by rw [← hsplit]; rfl
    rw [hhead] at h
    exact transGen_of_isChain h.right_of_append
  obtain ⟨before, after, hsplit⟩ := List.append_of_mem hb
  cases before with
  | nil =>
    obtain ⟨rfl, -⟩ := List.cons.inj hsplit
    exact hback
  | cons c before =>
    obtain ⟨rfl, hrest⟩ := List.cons.inj hsplit
    have hfront : ((first :: before ++ [b]) ++ (after ++ [first])).IsChain r := by
      simpa [hrest] using h
    exact hback.trans (transGen_of_isChain hfront.left_of_append)

theorem not_transGen_of_acc {α : Type} {r : α → α → Prop} {a : α} (h : Acc r a) :
    ¬ TransGen r a a := by
  have hacc := h.transGen
  clear h
  induction hacc with
  | intro a _ ih => exact fun hcycle => ih a hcycle hcycle

/-! ## Going back from a settled node -/

namespace Walk

/-- `m` feeds the known node `n`, and no cycle has been recorded against `m`. -/
def Unreported (types : Catalogue) (g : Graph) (w : Walk) (m n : NodeId) : Prop :=
  g.Known types n ∧ g.Feeds m n ∧ w.recorded m = []

/-- Steps only add reports. -/
theorem exists_reports_eq {types : Catalogue} {g : Graph} {p q : Position}
    (htracked : p.Tracked types g) (hstep : Step types g p q) :
    ∃ new, q.walk.reports = p.walk.reports ++ new := by
  cases hstep with
  | skip => exact ⟨[], (List.append_nil _).symm⟩
  | close => exact ⟨_, reports_recordCycle ..⟩
  | reject => exact ⟨[], (reports_reject ..).trans (List.append_nil _).symm⟩
  | descend => exact ⟨[], (reports_descend ..).trans (List.append_nil _).symm⟩
  | leave =>
    obtain ⟨cycles, hactive⟩ := htracked.exists_active
    rw [leave_eq hactive]
    exact ⟨[], (List.append_nil _).symm⟩

theorem unreported_of_step {types : Catalogue} {g : Graph} {p q : Position}
    (htracked : p.Tracked types g) (hstep : Step types g p q) {m n : NodeId}
    (h : Unreported types g q.walk m n) : Unreported types g p.walk m n := by
  obtain ⟨hknown, hfeeds, hrecorded⟩ := h
  obtain ⟨new, hnew⟩ := exists_reports_eq htracked hstep
  refine ⟨hknown, hfeeds, ?_⟩
  unfold recorded at hrecorded ⊢
  rw [hnew, List.filter_append, List.map_append] at hrecorded
  exact (List.append_eq_nil_iff.1 hrecorded).1

/-- A node that can be seen is settled, or has a cycle recorded against it. -/
theorem done_or_recorded {types : Catalogue} {g : Graph} {p : Position} (h : p.Reached types g)
    {n : NodeId} (hn : (p.walk.outcome? n).isSome) :
    (∃ o, p.walk.state? n = some (.done o)) ∨ p.walk.recorded n ≠ [] := by
  obtain ⟨o, ho⟩ := Option.isSome_iff_exists.1 hn
  obtain ⟨s, hs, hso⟩ := Option.bind_eq_some_iff.1 ho
  cases s with
  | unvisited => cases hso
  | active cycles =>
    refine Or.inr ?_
    rw [← (h.slotOk n _ hs).of_active]
    rintro rfl
    cases hso
  | done o => exact Or.inl ⟨o, hs⟩

/-- A step settles a node only after those in front of it, apart from recorded ones. -/
theorem done_of_done_step {types : Catalogue} {g : Graph} {p q : Position}
    (hreached : p.Reached types g) (hstep : Step types g p q) {n : NodeId} {o : Outcome}
    (hn : q.walk.state? n = some (.done o)) :
    p.walk.state? n = some (.done o) ∨
      ∀ m, Unreported types g p.walk m n → ∃ o, p.walk.state? m = some (.done o) := by
  have htracked := hreached.tracked
  cases hstep with
  | skip => exact Or.inl hn
  | @close frames rest w id cycles =>
    rw [state?_recordCycle] at hn
    split at hn
    · cases hn
    · exact Or.inl hn
  | @reject frames rest w id problem hasks hstate hreject =>
    rw [state?_reject] at hn
    split at hn
    · next he => exact Or.inr fun m hm => absurd hm.1 (he ▸ hreject.not_known)
    · exact Or.inl hn
  | @descend frames rest w id =>
    rw [state?_descend] at hn
    split at hn
    · cases hn
    · exact Or.inl hn
  | @leave frame rest w hpending =>
    obtain ⟨cycles, hactive⟩ := htracked.exists_active
    rw [leave_eq hactive, state?_settle] at hn
    split at hn
    · next he =>
      refine Or.inr fun m hm => ?_
      have hseen := htracked.isSome_of_feeds hpending (he ▸ hm.2.1)
      exact (done_or_recorded hreached hseen).resolve_right fun hne => hne hm.2.2
    · exact Or.inl hn

end Walk

/-- Going back from a settled node through nodes without a recorded cycle comes to an end. -/
theorem Position.Reached.acc_unreported {types : Catalogue} {g : Graph} {p : Position}
    (h : p.Reached types g) {n : NodeId} {o : Outcome} (hn : p.walk.state? n = some (.done o)) :
    Acc (Walk.Unreported types g p.walk) n := by
  refine h.induction (P := fun p => ∀ n o, p.walk.state? n = some (.done o) →
    Acc (Walk.Unreported types g p.walk) n) ?_ ?_ n o hn
  · intro n o hn
    cases Walk.state?_start hn
  · intro p q hreached ih hstep n o hn
    have hback {m n : NodeId} (hm : Walk.Unreported types g q.walk m n) :
        Walk.Unreported types g p.walk m n :=
      Walk.unreported_of_step hreached.tracked hstep hm
    have hkeep {n : NodeId} {o : Outcome} (hn : p.walk.state? n = some (.done o)) :
        Acc (Walk.Unreported types g q.walk) n :=
      Subrelation.accessible hback (ih n o hn)
    rcases Walk.done_of_done_step hreached hstep hn with hold | hnew
    · exact hkeep hold
    · refine ⟨n, fun m hm => ?_⟩
      obtain ⟨o, ho⟩ := hnew m (hback hm)
      exact hkeep ho

namespace Walk

/-- Some node of every cycle has a cycle recorded against it. -/
theorem exists_recorded_of_isCycle {types : Catalogue} {g : Graph} {nodes : List NodeId}
    (h : g.IsCycle types nodes) : ∃ n ∈ nodes, (walk types g).recorded n ≠ [] := by
  by_contra hnone
  have hrecorded : ∀ n ∈ nodes, (walk types g).recorded n = [] := fun n hn =>
    Classical.byContradiction fun hne => hnone ⟨n, hn, hne⟩
  obtain ⟨first, rest, rfl⟩ := List.exists_cons_of_ne_nil h.ne_nil
  -- Without a recorded cycle the whole circle could be followed back for ever.
  have hchain : (first :: rest ++ [first]).IsChain fun n m =>
      Unreported types g (walk types g) m n := by
    refine List.IsChain.imp_of_mem_imp (fun n m hn hm hfeeds => ?_) h.closed
    have hmem {k : NodeId} (hk : k ∈ first :: rest ++ [first]) : k ∈ first :: rest := by
      rcases List.mem_append.1 hk with hk | hk
      · exact hk
      · exact List.mem_singleton.1 hk ▸ List.mem_cons_self
    exact ⟨h.known n (hmem hn), hfeeds, hrecorded m (hmem hm)⟩
  obtain ⟨node, type, htyped⟩ := h.known first List.mem_cons_self
  obtain ⟨o, ho⟩ := exists_done types (Roster.mem_keys_iff.2 ⟨node, htyped.1⟩)
  exact not_transGen_of_acc ((reached_walk types g).acc_unreported ho)
    (transGen_swap.1 (transGen_of_isChain hchain))

end Walk

end ShaderNodes
