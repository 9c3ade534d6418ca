import Mathlib
import ShaderNodes.Proofs.Previews

/-!
# Errors and their nodes

A failed preview shows the errors of the whole graph, node by node. Each of them belongs to the node
in whose outcome it is recorded. A node may fail without an error of its own, but then it reads a
node that has failed, and so on back to one that has an error to show; the way back cannot go round
in circles, since a recorded cycle is an error. So a failed preview always shows something.

* `Walk.keys_start`: nodes have slots in the order of the graph, followed by unplaced sources;
* `Walk.exists_errorsOf_ne_nil`: behind every failure there is a node with an error;
* `failed_preview_errors`: what a failed preview shows.
-/

namespace ShaderNodes

open Relation

/-! ## The order of slots -/

namespace Roster

universe u v

variable {α : Type u} {κ : Type v} [Keyed α κ] [DecidableEq κ]

theorem keys_putAll (r : Roster α) (xs : List α) :
    (r.putAll xs).keys =
      (xs.map key).foldl (fun seen k => if k ∈ seen then seen else seen ++ [k]) r.keys := by
  unfold putAll
  induction xs generalizing r with
  | nil => rfl
  | cons x xs ih => rw [List.foldl_cons, ih, keys_put, List.map_cons, List.foldl_cons]

end Roster

theorem Roster.keys_ofList {α κ : Type} [Keyed α κ] [DecidableEq κ] (xs : List α) :
    (ofList xs).keys = firstOccurrences (xs.map key) :=
  keys_putAll empty xs

theorem firstOccurrences_of_nodup {α : Type} [DecidableEq α] {xs : List α} (h : xs.Nodup) :
    firstOccurrences xs = xs := by
  induction xs using List.reverseRecOn with
  | nil => rfl
  | append_singleton xs x ih =>
    obtain ⟨hxs, -, hx⟩ := List.nodup_append.1 h
    rw [firstOccurrences_concat, ih hxs, if_neg]
    exact fun hmem => hx x hmem x (List.mem_singleton_self x) rfl

/-- The sources of joints that are not placed, in the order in which they come up first. -/
def Graph.unplacedSources (g : Graph) : List NodeId :=
  ((g.joints.entries.map fun j => j.source.node).filter fun id => id ∉ g.nodes.keys).eraseDups

namespace Walk

theorem keys_start_eq_firstOccurrences (g : Graph) : (start g).slots.keys =
    firstOccurrences (g.nodes.keys ++ g.joints.entries.map fun j => j.source.node) := by
  unfold start
  rw [Roster.keys_ofList, List.map_map]
  exact congrArg firstOccurrences (List.map_id _)

theorem keys_start (g : Graph) : (start g).slots.keys = g.nodes.keys ++ g.unplacedSources := by
  rw [keys_start_eq_firstOccurrences, firstOccurrences_eq_eraseDups, List.eraseDups_append,
    ← firstOccurrences_eq_eraseDups, firstOccurrences_of_nodup g.nodes.keys_nodup]
  unfold Graph.unplacedSources List.removeAll
  congr 2
  refine List.filter_congr fun id _ => ?_
  simp

variable {types : Catalogue} {g : Graph}

/-- A walk keeps the slots that it starts with. -/
theorem keys_walk (types : Catalogue) (g : Graph) :
    (walk types g).slots.keys = (start g).slots.keys :=
  (reached_walk types g).tracked.keys

theorem errors_walk (types : Catalogue) (g : Graph) :
    (walk types g).errors =
      (g.nodes.keys ++ g.unplacedSources).flatMap (walk types g).errorsOf := by
  rw [errors_eq, keys_walk, keys_start]

/-! ## Behind every failure there is an error -/

theorem node_of_mem_errorsOf {n : NodeId} {d : Diagnostic}
    (h : d ∈ (walk types g).errorsOf n) : d.node = n := by
  obtain ⟨plain, heq, hplain⟩ := exists_errorsOf_eq types g n
  rw [heq] at h
  rcases List.mem_append.1 h with h | h
  · obtain ⟨path, -, rfl⟩ := List.mem_map.1 h
    rfl
  · exact (hplain d h).1

theorem errorsOf_eq {w : Walk} {n : NodeId} {outcome : Outcome} (h : w.outcome? n = some outcome) :
    w.errorsOf n = Checked.errors outcome := by
  unfold errorsOf
  rw [h]

/-- An error of a node is a recorded cycle, says why there is nothing to compile, or comes up when
the node is compiled. -/
theorem mem_errorsOf_cases {n : NodeId} {d : Diagnostic} (h : d ∈ (walk types g).errorsOf n) :
    (∃ path, d = ⟨n, .cycle path⟩) ∨ (∃ problem, Rejected types g n problem ∧ d = ⟨n, problem⟩) ∨
      ∃ node type, g.Typed types n node type ∧
        d ∈ Checked.errors (g.outcomeOf node type (walk types g).outcome?) := by
  cases ho : (walk types g).outcome? n with
  | none =>
    unfold errorsOf at h
    rw [ho] at h
    cases h
  | some outcome =>
    rw [errorsOf_eq ho] at h
    cases (reached_walk types g).slotOk n _ (state?_of_outcome? ho) with
    | rejected hreject _ heq =>
      rw [heq] at h
      exact Or.inr (Or.inl ⟨_, hreject, List.mem_singleton.1 h⟩)
    | compiled htyped _ heq =>
      rw [heq, Outcome.errors_blockedBy] at h
      rcases List.mem_append.1 h with hcycle | hcompile
      · obtain ⟨path, -, rfl⟩ := List.mem_map.1 hcycle
        exact Or.inl ⟨path, rfl⟩
      · exact Or.inr (Or.inr ⟨_, _, htyped, hcompile⟩)

/-- A node that fails reads a node with an error, directly or not, or has one itself. -/
theorem exists_errorsOf_ne_nil {n : NodeId} {errors : List Diagnostic}
    (h : (walk types g).outcome? n = some (.error errors)) :
    ∃ m, ReflTransGen (g.Reads types) n m ∧ (walk types g).errorsOf m ≠ [] := by
  by_contra hnone
  have hsilent : ∀ m, ReflTransGen (g.Reads types) n m → (walk types g).errorsOf m = [] := by
    intro m hm
    by_contra hne
    exact hnone ⟨m, hm, hne⟩
  obtain ⟨f, hf⟩ := exists_ok_of_errorsOf_eq_nil h hsilent
  rw [h] at hf
  cases hf

theorem mem_slots_of_errorsOf {w : Walk} {m : NodeId} (h : w.errorsOf m ≠ []) :
    m ∈ w.slots.keys := by
  rw [mem_keys_iff_state?]
  cases hs : w.state? m with
  | none =>
    unfold errorsOf outcome? at h
    rw [hs] at h
    exact absurd rfl h
  | some s => exact ⟨s, rfl⟩

theorem errors_ne_nil {n : NodeId} {errors : List Diagnostic}
    (h : (walk types g).outcome? n = some (.error errors)) : (walk types g).errors ≠ [] := by
  obtain ⟨m, -, hne⟩ := exists_errorsOf_ne_nil h
  obtain ⟨d, hd⟩ := List.exists_mem_of_ne_nil _ hne
  rw [errors_eq]
  exact List.ne_nil_of_mem (List.mem_flatMap.2 ⟨m, mem_slots_of_errorsOf hne, hd⟩)

end Walk

/-- A failed preview shows all errors of the walk, and its node has failed. -/
theorem Graph.error_mem_compile {types : Catalogue} {env : Envelope} {g : Graph} {n : NodeId}
    {errors : List Diagnostic} (h : (n, .error errors) ∈ (g.compile types env).value) :
    errors = (walk types g).errors ∧ ∃ own, (walk types g).outcome? n = some (.error own) := by
  obtain ⟨hn, hpreview⟩ := mem_compile_iff.1 h
  obtain ⟨outcome, ho⟩ := Walk.exists_done types hn
  have ho := Walk.outcome?_of_done ho
  unfold Program.assemble at hpreview
  split at hpreview
  · next hnone =>
    refine ⟨Except.error.inj hpreview, ?_⟩
    cases outcome with
    | ok f =>
      rw [Walk.fragment?_eq_some_iff.2 ho] at hnone
      cases hnone
    | error own => exact ⟨own, ho⟩
  · next f hf =>
    obtain ⟨result, hresult⟩ := Walk.exists_result hf
    rw [hresult] at hpreview
    cases hpreview

/-- **What a failed preview shows.** Every error carries the number of the node in whose outcome it
is recorded. The preview of a placed node fails exactly when the node does, and each failed preview
shows the errors of all nodes, in the order of the graph and then of the unplaced sources of its
joints. Behind every failed node there is one with an error, which it reads through declared inputs,
directly or not, or is itself; so no failed preview is empty. -/
theorem failed_preview_errors (types : Catalogue) (env : Envelope) (g : Graph) :
    (∀ n outcome, (walk types g).outcome? n = some outcome →
      ∀ d ∈ Checked.errors outcome, d.node = n) ∧
    (∀ n ∈ g.nodes.keys, (∃ errors, (n, .error errors) ∈ (g.compile types env).value) ↔
      ∃ own, (walk types g).outcome? n = some (.error own)) ∧
    (∀ n errors, (n, .error errors) ∈ (g.compile types env).value →
      errors = (g.nodes.keys ++ g.unplacedSources).flatMap (walk types g).errorsOf ∧
      errors ≠ []) ∧
    ∀ n errors, (walk types g).outcome? n = some (.error errors) →
      ∃ m, ReflTransGen (g.Reads types) n m ∧ (walk types g).errorsOf m ≠ [] := by
  refine ⟨fun n outcome ho d hd => ?_, fun n hn => ⟨?_, ?_⟩, fun n errors hn => ?_,
    fun n errors hn => ?_⟩
  · rw [← Walk.errorsOf_eq ho] at hd
    exact Walk.node_of_mem_errorsOf hd
  · rintro ⟨errors, hmem⟩
    exact (Graph.error_mem_compile hmem).2
  · rintro ⟨own, hown⟩
    rw [Graph.exists_error_mem_compile_iff hn]
    rintro ⟨f, hf⟩
    rw [hown] at hf
    cases hf
  · obtain ⟨rfl, own, hown⟩ := Graph.error_mem_compile hn
    exact ⟨Walk.errors_walk types g, Walk.errors_ne_nil hown⟩
  · exact Walk.exists_errorsOf_ne_nil hn

namespace Sample

/-- A node that reads one which is not placed, next to a node that succeeds. -/
def unfed : Graph :=
  ⟨.ofList [node 1 "One", node 2 "Negate"], .ofList [joint 9 2 "X"]⟩

end Sample

/-- A node that fails without an error of its own shows the error of the node that it reads. -/
theorem failed_preview_errors_unfed :
    (walk Sample.types Sample.unfed).errorsOf ⟨2⟩ = [] ∧
      (∃ own, (walk Sample.types Sample.unfed).outcome? ⟨2⟩ = some (.error own)) ∧
      (⟨2⟩, .error [⟨⟨9⟩, .nodeNotFound⟩]) ∈
        (Sample.unfed.compile Sample.types .customary).value ∧
      ∃ m, ReflTransGen (Sample.unfed.Reads Sample.types) ⟨2⟩ m ∧
        (walk Sample.types Sample.unfed).errorsOf m ≠ [] := by
  obtain ⟨-, hfails, hshows, hbehind⟩ :=
    failed_preview_errors Sample.types .customary Sample.unfed
  have hall : (Sample.unfed.nodes.keys ++ Sample.unfed.unplacedSources).flatMap
      (walk Sample.types Sample.unfed).errorsOf = [⟨⟨9⟩, .nodeNotFound⟩] := by decide_cbv
  have hfailed : ((walk Sample.types Sample.unfed).outcome? ⟨2⟩).map Checked.succeeds =
      some false := by decide_cbv
  obtain ⟨outcome, ho, houtcome⟩ := Option.map_eq_some_iff.1 hfailed
  cases outcome with
  | ok f => cases houtcome
  | error own =>
    obtain ⟨errors, hmem⟩ := (hfails ⟨2⟩ (by decide_cbv)).2 ⟨own, ho⟩
    obtain ⟨rfl, -⟩ := hshows ⟨2⟩ errors hmem
    rw [hall] at hmem
    exact ⟨by decide_cbv, ⟨own, ho⟩, hmem, hbehind ⟨2⟩ own ho⟩

end ShaderNodes
