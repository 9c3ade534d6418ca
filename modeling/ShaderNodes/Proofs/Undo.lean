import Mathlib
import ShaderNodes.Proofs.Edits

/-!
# Undoing edits

Placing a node is undone by deleting it, drawing a joint by removing it, and removing a joint by
drawing it again. The first two restore the canvas as it was, order included: what came last goes,
and nothing else is touched. A joint that is drawn again comes last, so there the order may be
another one; but no comparison of canvases goes by the order of joints.

All joints have to lead between nodes of the graph. A new node might get the number of an end that
is not there, and would take the joint with it when it is deleted.

* `Roster.erase_put_of_not_mem`, `Roster.perm_put_erase`: putting and removing an entry;
* `Roster.alike_left_of_perm`, `Roster.alike_right_of_perm`: comparing does not go by order;
* `edits_can_be_undone`: the edits and what undoes them.
-/

namespace ShaderNodes

namespace Roster

universe u v

variable {α : Type u} {κ : Type v} [Keyed α κ]

/-- Rosters with the same entries list them in some order each. -/
theorem perm_of_mem_iff {r s : Roster α} (h : ∀ x, x ∈ r.entries ↔ x ∈ s.entries) :
    r.entries.Perm s.entries :=
  (List.perm_ext_iff_of_nodup r.nodup_keys.of_map s.nodup_keys.of_map).2 h

variable [DecidableEq κ]

theorem erase_put_of_not_mem {r : Roster α} {x : α} (h : key x ∉ r.keys) :
    (r.put x).erase (key x) = r := by
  have hothers : r.entries.filter (fun e => decide (key e ≠ key x)) = r.entries := by
    rw [List.filter_eq_self]
    intro e he
    apply decide_eq_true
    intro heq
    exact h (heq ▸ key_mem_keys he)
  apply ext
  unfold erase filter
  dsimp only
  rw [entries_put_of_not_mem h, List.filter_append, hothers]
  simp

theorem perm_put_erase {r : Roster α} {x : α} (hx : x ∈ r.entries) :
    ((r.erase (key x)).put x).entries.Perm r.entries := by
  apply perm_of_mem_iff
  intro y
  rw [mem_put, mem_erase]
  constructor
  · rintro (rfl | ⟨⟨hy, -⟩, -⟩)
    · exact hx
    · exact hy
  · intro hy
    by_cases hkey : key y = key x
    · exact Or.inl (eq_of_key_eq hy hx hkey)
    · exact Or.inr ⟨⟨hy, hkey⟩, hkey⟩

variable [Alike α]

theorem alike_left_of_perm {r r' : Roster α} (h : r.entries.Perm r'.entries) (s : Roster α) :
    alike r s = alike r' s := by
  have hsize : r.size = r'.size := h.length_eq
  change (r.size == s.size && _) = (r'.size == s.size && _)
  rw [hsize, h.all_eq]

theorem alike_right_of_perm {r r' : Roster α} (h : r.entries.Perm r'.entries) (s : Roster α) :
    alike s r = alike s r' := by
  have hsize : r.size = r'.size := h.length_eq
  have hget : r.get? = r'.get? := funext (get?_eq_of_mem_iff fun x => h.mem_iff)
  change (s.size == r.size && _) = (s.size == r'.size && _)
  rw [hsize, hget]

theorem alike_self {r : Roster α} (h : ∀ x ∈ r.entries, alike x x = true) :
    alike r r = true := by
  change (r.size == r.size && r.entries.all fun e => (r.get? (key e)).any (alike e)) = true
  rw [beq_self_eq_true, Bool.true_and, List.all_eq_true]
  intro x hx
  rw [get?_key hx]
  exact h x hx

end Roster

namespace Canvas

variable {c : Canvas}

theorem Sound.closed (h : c.Sound) : c.graph.Closed := by
  rintro j hj n (rfl | rfl)
  · exact (h.ends j hj).1
  · exact (h.ends j hj).2

theorem closed_after (types : Catalogue) (edits : List Edit) :
    ((Canvas.new types).after edits).graph.Closed := by
  have hsound : ((Canvas.new types).after edits).Sound :=
    after_induction (fun _ _ hc hchange => hc.change hchange) (.new types) edits
  exact hsound.closed

/-- A node that no joint touches comes and goes without a trace. -/
theorem without_withNodes_put (hclosed : c.graph.Closed) {n : Node}
    (hn : n.id ∉ c.graph.nodes.keys) :
    (c.withNodes (c.graph.nodes.put n)).without n.id = c := by
  have hnodes : (c.graph.nodes.put n).erase n.id = c.graph.nodes := Roster.erase_put_of_not_mem hn
  have hjoints : (c.graph.joints.filter fun j => j.source.node ≠ n.id && j.dest.node ≠ n.id) =
      c.graph.joints := by
    apply Roster.ext
    apply List.filter_eq_self.2
    intro j hj
    have hfree : ¬ j.Touches n.id := fun htouch => hn (hclosed j hj n.id htouch)
    simpa [Joint.Touches] using hfree
  change { c with graph := ⟨(c.graph.nodes.put n).erase n.id, _⟩ } = c
  rw [hnodes]
  change { c with graph := ⟨c.graph.nodes, c.graph.joints.filter _⟩ } = c
  rw [hjoints]

/-- No comparison goes by the order of joints. -/
theorem alike_withJoints {joints : Roster Joint}
    (h : joints.entries.Perm c.graph.joints.entries) (d : Canvas) :
    alike (c.withJoints joints) d = alike c d ∧ alike d (c.withJoints joints) = alike d c := by
  constructor
  · change (alike c.types d.types && (alike c.graph.nodes d.graph.nodes &&
      alike joints d.graph.joints)) = _
    rw [Roster.alike_left_of_perm h]
    rfl
  · change (alike d.types c.types && (alike d.graph.nodes c.graph.nodes &&
      alike d.graph.joints joints)) = _
    rw [Roster.alike_right_of_perm h]
    rfl

end Canvas

/-- **Edits can be undone.** On a canvas whose joints all lead between its nodes, deleting a node
that was just placed gives back the canvas, and so does removing a joint that was just drawn into an
open inlet. A joint that was removed can be drawn again. That gives back the types and the nodes,
and the same joints, though perhaps in another order; the canvas compares to every canvas as it did
before, from either side. So it is like the canvas before, unless that one is not even like itself:
a number that is none differs from itself. -/
theorem edits_can_be_undone (c : Canvas) (hclosed : c.graph.Closed) :
    (∀ type offset e, c.add type offset = .ok e →
      ∃ e', e.canvas.delete e.result = .ok e' ∧ e'.canvas = c) ∧
    (∀ source dest e, c.connect source dest = .ok e → dest ∉ c.graph.joints.keys →
      ∃ e', e.canvas.disconnect dest = some e' ∧ e'.canvas = c) ∧
    ∀ dest e, c.disconnect dest = some e →
      ∃ e', e.canvas.connect e.result.source e.result.dest = .ok e' ∧
        e'.canvas.types = c.types ∧ e'.canvas.graph.nodes = c.graph.nodes ∧
        e'.canvas.graph.joints.entries.Perm c.graph.joints.entries ∧
        alike e'.canvas.graph.joints c.graph.joints = true ∧
        (alike c c = true → alike e'.canvas c = true) ∧
        ∀ d, alike e'.canvas d = alike c d ∧ alike d e'.canvas = alike d c := by
  refine ⟨?_, ?_, ?_⟩
  · intro type offset e h
    obtain ⟨t, id, -, hid, rfl⟩ := Canvas.add_eq_ok_iff.1 h
    have hplaced : id ∈ (c.graph.nodes.put ⟨id, type, offset, Canvas.defaults t⟩).keys :=
      Roster.mem_keys_put.2 (.inr rfl)
    obtain ⟨e', hdelete, hcanvas⟩ := Canvas.delete_eq (c := c.withNodes _) hplaced
    refine ⟨e', hdelete, hcanvas.trans ?_⟩
    exact Canvas.without_withNodes_put hclosed (n := ⟨id, type, offset, Canvas.defaults t⟩)
      (Canvas.nextId_not_mem hid)
  · intro source dest e h hopen
    obtain ⟨-, -, rfl⟩ := Canvas.connect_eq_ok_iff.1 h
    refine ⟨_, Canvas.disconnect_eq_some_iff.2 ⟨_, (Roster.amends_put _ _).found, rfl⟩, ?_⟩
    have hjoints : (c.graph.joints.put ⟨dest, source⟩).erase dest = c.graph.joints :=
      Roster.erase_put_of_not_mem hopen
    change c.withJoints ((c.graph.joints.put ⟨dest, source⟩).erase dest) = c
    rw [hjoints]
    rfl
  · intro dest e h
    obtain ⟨j, hj, rfl⟩ := Canvas.disconnect_eq_some_iff.1 h
    obtain ⟨hmem, rfl⟩ := Roster.mem_of_get? hj
    have hsource := hclosed j hmem j.source.node (.inl rfl)
    have hdest := hclosed j hmem j.dest.node (.inr rfl)
    have hperm := Roster.perm_put_erase hmem
    have hself : alike c.graph.joints c.graph.joints = true :=
      Roster.alike_self fun x _ => decide_eq_true rfl
    have halike := (Roster.alike_left_of_perm hperm c.graph.joints).trans hself
    have hsame := Canvas.alike_withJoints hperm
    exact ⟨_, Canvas.connect_eq_ok_iff.2 ⟨hsource, hdest, rfl⟩, rfl, rfl, hperm, halike,
      fun hc => (hsame c).1.trans hc, hsame⟩

/-- Two nodes, of which the first feeds two inlets of the second. -/
def Sample.wired : Canvas := (Canvas.new Sample.clocks).after [
  .add ⟨"Global", "Time"⟩ .origin,
  .add ⟨"Global", "Time"⟩ .origin,
  .connect ⟨⟨1⟩, .all⟩ ⟨⟨2⟩, "X"⟩,
  .connect ⟨⟨1⟩, .all⟩ ⟨⟨2⟩, "Y"⟩]

/-- A node comes and goes, and a joint comes last when it is drawn again. -/
theorem edits_can_be_undone_wired :
    (∃ e e', Sample.wired.add ⟨"Global", "Time"⟩ .origin = .ok e ∧
      e.canvas.delete e.result = .ok e' ∧ e'.canvas = Sample.wired) ∧
    (∃ e e', Sample.wired.connect ⟨⟨2⟩, .all⟩ ⟨⟨1⟩, "X"⟩ = .ok e ∧
      e.canvas.disconnect ⟨⟨1⟩, "X"⟩ = some e' ∧ e'.canvas = Sample.wired) ∧
    ∃ e e', Sample.wired.disconnect ⟨⟨2⟩, "X"⟩ = some e ∧
      e.canvas.connect e.result.source e.result.dest = .ok e' ∧
      alike e'.canvas.graph.joints Sample.wired.graph.joints = true ∧
      alike e'.canvas Sample.wired = true ∧
      e'.canvas.graph.joints.keys ≠ Sample.wired.graph.joints.keys := by
  have hclosed : Sample.wired.graph.Closed := Canvas.closed_after _ _
  obtain ⟨hadd, hconnect, hdisconnect⟩ := edits_can_be_undone Sample.wired hclosed
  refine ⟨?_, ?_, ?_⟩
  · have hplaced : (Sample.wired.add ⟨"Global", "Time"⟩ .origin).toOption.map Edited.result =
        some ⟨3⟩ := by decide +kernel
    obtain ⟨e, he, -⟩ := Canvas.exists_of_toOption hplaced
    obtain ⟨e', hdelete, hcanvas⟩ := hadd _ _ e he
    exact ⟨e, e', he, hdelete, hcanvas⟩
  · have hdrawn : (Sample.wired.connect ⟨⟨2⟩, .all⟩ ⟨⟨1⟩, "X"⟩).toOption.map Edited.result =
        some () := by decide +kernel
    obtain ⟨e, he, -⟩ := Canvas.exists_of_toOption hdrawn
    obtain ⟨e', hremove, hcanvas⟩ := hconnect _ _ e he (by decide +kernel)
    exact ⟨e, e', he, hremove, hcanvas⟩
  · have hjoint : Sample.wired.graph.joints.get? ⟨⟨2⟩, "X"⟩ =
        some ⟨⟨⟨2⟩, "X"⟩, ⟨⟨1⟩, .all⟩⟩ := by decide +kernel
    have he := Canvas.disconnect_eq_some_iff.2 ⟨_, hjoint, rfl⟩
    obtain ⟨e', hdraw, -, -, -, halike, hrestored, -⟩ := hdisconnect _ _ he
    refine ⟨_, e', he, hdraw, halike, hrestored (by decide +kernel), ?_⟩
    obtain ⟨-, -, rfl⟩ := Canvas.connect_eq_ok_iff.1 hdraw
    decide +kernel

end ShaderNodes
