import ShaderNodes.Emit.Program
import ShaderNodes.Proofs.CycleReports

/-!
# Which previews fail

The preview of a node fails exactly if the node fails, and a node fails exactly if something has an
error among the nodes that it reads, directly or not. Reading goes through declared inputs only: a
joint into an input that the type does not declare closes cycles, but passes on no failure. So a
cycle makes all of its nodes fail if its joints lead into declared inputs, and not in general.

* `Graph.exists_error_mem_compile_iff`: the preview of a node fails with the node;
* `Walk.exists_ok_iff`: a node succeeds when nothing that it reads has an error;
* `cycle_preview_fails_iff`: which nodes of a cycle fail.
-/

namespace ShaderNodes

open Relation

/-! ## Previews and outcomes -/

theorem Walk.fragment?_eq_some_iff {w : Walk} {n : NodeId} {f : Fragment} :
    w.fragment? n = some f ↔ w.outcome? n = some (.ok f) := by
  unfold fragment?
  rw [Option.bind_eq_some_iff]
  constructor
  · rintro ⟨o, ho, hf⟩
    rw [ho, Checked.value?_eq_some_iff.1 hf]
  · intro h
    exact ⟨_, h, rfl⟩

/-- A node that has succeeded exposes its whole result. -/
theorem Walk.exists_result {types : Catalogue} {g : Graph} {n : NodeId} {f : Fragment}
    (h : (walk types g).fragment? n = some f) : ∃ result, f.output? .all = some result := by
  obtain ⟨-, node, type, -, hcompile⟩ := of_outcome?_ok (fragment?_eq_some_iff.1 h)
  exact Fragment.output?_all_of_compile hcompile

namespace Graph

variable {types : Catalogue} {env : Envelope} {g : Graph} {n : NodeId}

theorem mem_compile_iff {preview : Preview} :
    (n, preview) ∈ (g.compile types env).value ↔ n ∈ g.nodes.keys ∧
      preview = Program.assemble (walk types g) env (walk types g).errors n := by
  unfold compile
  simp only [List.mem_map, Prod.mk.injEq]
  constructor
  · rintro ⟨m, hm, rfl, rfl⟩
    exact ⟨hm, rfl⟩
  · rintro ⟨hn, rfl⟩
    exact ⟨n, hn, rfl, rfl⟩

/-- The program in a preview is put together from the fragments of the nodes in order. -/
theorem ok_mem_compile_iff {p : Program} :
    (n, .ok p) ∈ (g.compile types env).value ↔ n ∈ g.nodes.keys ∧ ∃ f result,
      (walk types g).fragment? n = some f ∧ f.output? .all = some result ∧
      p = .ofFragments env (((walk types g).order n).filterMap (walk types g).fragment?)
        result := by
  rw [mem_compile_iff]
  refine and_congr_right fun _ => ?_
  unfold Program.assemble
  constructor
  · intro h
    split at h
    · cases h
    · next f hf =>
      split at h
      · cases h
      · next result hresult => exact ⟨f, result, hf, hresult, Except.ok.inj h⟩
  · rintro ⟨f, result, hf, hresult, rfl⟩
    simp only [hf, hresult]

theorem exists_ok_mem_compile (types : Catalogue) (env : Envelope) {g : Graph} {n : NodeId}
    (hn : n ∈ g.nodes.keys) (h : ((walk types g).fragment? n).isSome) :
    ∃ p, (n, .ok p) ∈ (g.compile types env).value := by
  obtain ⟨f, hf⟩ := Option.isSome_iff_exists.1 h
  obtain ⟨result, hresult⟩ := Walk.exists_result hf
  exact ⟨_, ok_mem_compile_iff.2 ⟨hn, f, result, hf, hresult, rfl⟩⟩

/-- The preview of a placed node fails if and only if the node has not succeeded. -/
theorem exists_error_mem_compile_iff (hn : n ∈ g.nodes.keys) :
    (∃ errors, (n, .error errors) ∈ (g.compile types env).value) ↔
      ¬ ∃ f, (walk types g).outcome? n = some (.ok f) := by
  simp only [mem_compile_iff, hn, true_and, ← Walk.fragment?_eq_some_iff]
  unfold Program.assemble
  cases hf : (walk types g).fragment? n with
  | none => simp
  | some f =>
    obtain ⟨result, hresult⟩ := Walk.exists_result hf
    simp [hresult]

end Graph

/-! ## How failures spread -/

namespace Walk

variable {types : Catalogue} {g : Graph}

theorem errorsOf_of_ok {w : Walk} {n : NodeId} {f : Fragment}
    (h : w.outcome? n = some (.ok f)) : w.errorsOf n = [] := by
  unfold errorsOf
  rw [h]
  rfl

/-- Whatever a node that has succeeded reads has succeeded. -/
theorem exists_ok_of_reads {n m : NodeId} (hreads : g.Reads types n m)
    (h : ∃ f, (walk types g).outcome? n = some (.ok f)) :
    ∃ f, (walk types g).outcome? m = some (.ok f) := by
  obtain ⟨f, hf⟩ := h
  obtain ⟨node, type, htyped, j, hj, rfl, rfl, hinput⟩ := hreads
  obtain ⟨j', hj', hdest, hsource⟩ := exists_source hf htyped hinput
  obtain rfl : j' = j := Roster.eq_of_key_eq hj' hj hdest
  exact hsource

theorem exists_ok_of_reflTransGen {n m : NodeId} (hreads : ReflTransGen (g.Reads types) n m)
    (h : ∃ f, (walk types g).outcome? n = some (.ok f)) :
    ∃ f, (walk types g).outcome? m = some (.ok f) := by
  induction hreads with
  | refl => exact h
  | tail _ hlast ih => exact exists_ok_of_reads hlast ih

theorem known_of_errorsOf_eq_nil {n : NodeId} {o : Outcome}
    (h : (walk types g).outcome? n = some o) (hnone : (walk types g).errorsOf n = []) :
    g.Known types n := by
  cases (reached_walk types g).slotOk n _ (state?_of_outcome? h) with
  | rejected _ _ heq => simp [errorsOf, h, heq, Checked.errors] at hnone
  | compiled htyped => exact ⟨_, _, htyped⟩

theorem recorded_of_errorsOf_eq_nil {n : NodeId} (h : (walk types g).errorsOf n = []) :
    (walk types g).recorded n = [] := by
  obtain ⟨plain, heq, -⟩ := exists_errorsOf_eq types g n
  rw [heq] at h
  exact (List.append_eq_nil_iff.1 h).1

/-- A node that fails without an error reads a node that fails. -/
theorem exists_failed_of_silent {n : NodeId} (h : (walk types g).outcome? n = some (.error [])) :
    ∃ m errors, g.Reads types n m ∧ (walk types g).outcome? m = some (.error errors) := by
  have hnone : (walk types g).errorsOf n = [] := by simp [errorsOf, h, Checked.errors]
  obtain ⟨node, type, htyped⟩ := known_of_errorsOf_eq_nil h hnone
  rw [outcome?_of_typed htyped, recorded_of_errorsOf_eq_nil hnone, Outcome.blockedBy_nil] at h
  obtain ⟨input, hinput, j, errors, hj, hfailed⟩ :=
    Fragment.exists_failed_source_of_compile (Option.some.inj h)
  rw [Graph.find?_jointsInto, htyped.id_eq] at hj
  obtain ⟨hmem, hdest⟩ := Roster.mem_of_get? hj
  have hdest : j.dest = ⟨n, input⟩ := hdest
  refine ⟨j.source.node, errors, ⟨node, type, htyped, j, hmem, rfl, ?_, ?_⟩, hfailed⟩
  · rw [hdest]
  · rw [hdest]
    exact hinput

/-- A node succeeds if nothing that it reads, directly or not, has an error. -/
theorem exists_ok_of_errorsOf_eq_nil {n : NodeId} {o : Outcome}
    (ho : (walk types g).outcome? n = some o)
    (h : ∀ m, ReflTransGen (g.Reads types) n m → (walk types g).errorsOf m = []) :
    ∃ f, (walk types g).outcome? n = some (.ok f) := by
  -- Silent failures lead back along reads, and without recorded cycles that comes to an end.
  have hacc := (reached_walk types g).acc_unreported (state?_of_outcome? ho)
  induction hacc generalizing o with
  | intro n _ ih =>
    cases o with
    | ok f => exact ⟨f, ho⟩
    | error errors =>
      have hnone := h n .refl
      have hknown := known_of_errorsOf_eq_nil ho hnone
      obtain rfl : errors = [] := by simpa [errorsOf, ho, Checked.errors] using hnone
      obtain ⟨m, errors, hreads, hm⟩ := exists_failed_of_silent ho
      have hrest : ∀ k, ReflTransGen (g.Reads types) m k → (walk types g).errorsOf k = [] :=
        fun k hk => h k (.head hreads hk)
      obtain ⟨f, hf⟩ :=
        ih m ⟨hknown, hreads.feeds, recorded_of_errorsOf_eq_nil (hrest m .refl)⟩ hm hrest
      rw [hm] at hf
      cases hf

/-- A placed node succeeds if and only if nothing that it reads, directly or not, has an error. -/
theorem exists_ok_iff {n : NodeId} (hn : n ∈ g.nodes.keys) :
    (∃ f, (walk types g).outcome? n = some (.ok f)) ↔
      ∀ m, ReflTransGen (g.Reads types) n m → (walk types g).errorsOf m = [] := by
  constructor
  · intro h m hreads
    obtain ⟨f, hf⟩ := exists_ok_of_reflTransGen hreads h
    exact errorsOf_of_ok hf
  · intro h
    obtain ⟨o, ho⟩ := exists_done types hn
    exact exists_ok_of_errorsOf_eq_nil (outcome?_of_done ho) h

end Walk

/-! ## Cycles -/

theorem Graph.exists_error_mem_compile_iff_errorsOf (types : Catalogue) (env : Envelope)
    {g : Graph} {n : NodeId} (hn : n ∈ g.nodes.keys) :
    (∃ errors, (n, .error errors) ∈ (g.compile types env).value) ↔
      ∃ m, ReflTransGen (g.Reads types) n m ∧ (walk types g).errorsOf m ≠ [] := by
  rw [exists_error_mem_compile_iff hn, Walk.exists_ok_iff hn]
  simp only [not_forall, exists_prop, ne_eq]

theorem Graph.IsCycle.mem_keys {types : Catalogue} {g : Graph} {nodes : List NodeId}
    (h : g.IsCycle types nodes) {n : NodeId} (hn : n ∈ nodes) : n ∈ g.nodes.keys := by
  obtain ⟨node, _, htyped⟩ := h.known n hn
  exact Roster.mem_keys_iff.2 ⟨node, htyped.1⟩

/-- **Which nodes of a cycle fail.** The preview of a node on a cycle fails if and only if the node
reads a node with an error, through declared inputs and directly or not. Some node of every cycle
fails, and every node of a cycle whose joints all lead into declared inputs. -/
theorem cycle_preview_fails_iff (types : Catalogue) (env : Envelope) (g : Graph)
    (nodes : List NodeId) (hcycle : g.IsCycle types nodes) :
    (∀ n ∈ nodes, (∃ errors, (n, .error errors) ∈ (g.compile types env).value) ↔
      ∃ m, ReflTransGen (g.Reads types) n m ∧ (walk types g).errorsOf m ≠ []) ∧
    (∃ n ∈ nodes, ∃ errors, (n, .error errors) ∈ (g.compile types env).value) ∧
    ((nodes ++ nodes.head?.toList).IsChain (g.Reads types) →
      ∀ n ∈ nodes, ∃ errors, (n, .error errors) ∈ (g.compile types env).value) := by
  have hiff {n : NodeId} (hn : n ∈ nodes) :=
    Graph.exists_error_mem_compile_iff_errorsOf types env (hcycle.mem_keys hn)
  obtain ⟨m, hm, path, hpath⟩ := Walk.exists_cycle_mem_errorsOf hcycle
  have hne : (walk types g).errorsOf m ≠ [] := List.ne_nil_of_mem hpath
  refine ⟨fun n hn => hiff hn, ⟨m, hm, (hiff hm).2 ⟨m, .refl, hne⟩⟩, fun hchain n hn => ?_⟩
  exact (hiff hn).2 ⟨m, (transGen_of_closed hchain hn hm).to_reflTransGen, hne⟩

namespace Sample

/-- Two nodes that feed each other through inputs which their type does not declare. -/
def stray : Graph :=
  ⟨.ofList [node 1 "One", node 2 "One"], .ofList [joint 1 2 "Z", joint 2 1 "Z"]⟩

end Sample

theorem cycle_preview_fails_iff_loop :
    ∃ errors, (⟨2⟩, .error errors) ∈ (Sample.loop.compile Sample.types .customary).value :=
  (cycle_preview_fails_iff Sample.types .customary Sample.loop [⟨1⟩, ⟨2⟩] (by decide_cbv)).2.2
    (by decide_cbv) ⟨2⟩ (by simp)

/-- A node on a cycle can succeed. -/
theorem cycle_preview_succeeds_stray :
    Sample.stray.IsCycle Sample.types [⟨1⟩, ⟨2⟩] ∧
      ∃ p, (⟨2⟩, .ok p) ∈ (Sample.stray.compile Sample.types .customary).value :=
  ⟨by decide_cbv, Graph.exists_ok_mem_compile _ _ (by decide_cbv) (by decide_cbv)⟩

end ShaderNodes
