import Mathlib
import ShaderNodes.Proofs.FragmentOrder

/-!
# The loops turn by turn

Compiling a graph runs two loops: the walk, and for each program the placing of fragments. Both are
taken apart here into turns, so that one can speak of what holds after any number of them. A loop
with nothing left to do takes no further turn, and what it has found by then is what the function
gives that runs it.

* `turn`, `turns_induction`, `exists_halt_le`: loops that take turns, and when they come to an end;
* `Stage`, `stageAt`: the walk after a number of turns;
* `Stage.walk_eq`: the walk of a stage without a further turn is the walk through the graph;
* `placementAt`, `Placement.order_eq`: the same for the placing of fragments.
-/

namespace ShaderNodes

/-! ## Taking turns -/

section Turns

variable {α : Type} {next? : α → Option α}

/-- One turn. A loop that is over stays where it is. -/
def turn (next? : α → Option α) (s : α) : α := (next? s).getD s

theorem turn_eq {s t : α} (h : next? s = some t) : turn next? s = t := by
  unfold turn
  rw [h]
  rfl

theorem turn_eq_self {s : α} (h : next? s = none) : turn next? s = s := by
  unfold turn
  rw [h]
  rfl

/-- What every turn keeps holds throughout. -/
theorem turns_induction {P : α → Prop} (hkeep : ∀ s t, P s → next? s = some t → P t) {s : α}
    (h : P s) (k : Nat) : P ((turn next?)^[k] s) := by
  induction k with
  | zero => exact h
  | succ k ih =>
    rw [Function.iterate_succ_apply']
    cases hnext : next? ((turn next?)^[k] s) with
    | none => rwa [turn_eq_self hnext]
    | some t =>
      rw [turn_eq hnext]
      exact hkeep _ _ ih hnext

/-- A loop whose turns lower a number comes to an end within that number of turns. -/
theorem exists_halt_le {P : α → Prop} (potential : α → Nat)
    (hkeep : ∀ s t, P s → next? s = some t → P t)
    (hlower : ∀ s t, P s → next? s = some t → potential t < potential s) {s : α} (h : P s) :
    ∃ k ≤ potential s, next? ((turn next?)^[k] s) = none := by
  induction hn : potential s using Nat.strong_induction_on generalizing s with
  | _ n ih =>
    cases hnext : next? s with
    | none => exact ⟨0, Nat.zero_le _, hnext⟩
    | some t =>
      have hlt : potential t < n := hn ▸ hlower s t h hnext
      obtain ⟨k, hk, hhalt⟩ := ih (potential t) hlt (hkeep s t h hnext) rfl
      refine ⟨k + 1, by omega, ?_⟩
      rwa [Function.iterate_succ_apply, turn_eq hnext]

end Turns

/-! ## The walk -/

/-- A position of the walk, with the placed nodes that it will still be asked to visit. -/
structure Stage extends Position where
  roots : List NodeId

namespace Stage

variable {types : Catalogue} {g : Graph}

def start (g : Graph) : Stage := ⟨⟨[], .start g⟩, g.nodes.keys⟩

/-- The stage after the next turn. The node that is asked for is entered; when nothing is left to
visit in front of the innermost node, that node is left. -/
def next? (types : Catalogue) (g : Graph) : Stage → Option Stage
  | ⟨⟨[], _⟩, []⟩ => none
  | ⟨⟨[], w⟩, id :: roots⟩ =>
    some ⟨⟨(w.enter types g id).2.toList, (w.enter types g id).1⟩, roots⟩
  | ⟨⟨frame :: rest, w⟩, roots⟩ =>
    match frame.pending with
    | [] => some ⟨⟨rest, w.leave frame⟩, roots⟩
    | d :: pending =>
      some ⟨⟨(w.enter types g d).2.toList ++ { frame with pending } :: rest,
        (w.enter types g d).1⟩, roots⟩

/-- The node that is asked for in the next turn. -/
def asks? (s : Stage) : Option NodeId :=
  match s.frames with
  | [] => s.roots.head?
  | frame :: _ => frame.pending.head?

/-- The frame of the node that is compiled in the next turn. -/
def compiles? (s : Stage) : Option Frame :=
  match s.frames with
  | [] => none
  | frame :: _ => if frame.pending.isEmpty then some frame else none

theorem next?_of_asks? (types : Catalogue) (g : Graph) {s : Stage} {id : NodeId}
    (h : s.asks? = some id) :
    ∃ t, s.next? types g = some t ∧ t.walk = (s.walk.enter types g id).1 := by
  obtain ⟨⟨frames, w⟩, roots⟩ := s
  cases frames with
  | nil =>
    obtain ⟨rest, rfl⟩ := List.head?_eq_some_iff.1 h
    exact ⟨_, rfl, rfl⟩
  | cons frame rest =>
    obtain ⟨pending, hpending⟩ := List.head?_eq_some_iff.1 h
    simp only [next?, hpending]
    exact ⟨_, rfl, rfl⟩

theorem of_compiles? (types : Catalogue) (g : Graph) {s : Stage} {frame : Frame}
    (h : s.compiles? = some frame) :
    frame.pending = [] ∧ ∃ rest, s.frames = frame :: rest ∧
      s.next? types g = some ⟨⟨rest, s.walk.leave frame⟩, s.roots⟩ := by
  obtain ⟨⟨frames, w⟩, roots⟩ := s
  cases frames with
  | nil => cases h
  | cons top rest =>
    simp only [compiles?, Option.ite_none_right_eq_some, List.isEmpty_iff] at h
    obtain ⟨hpending, htop⟩ := h
    obtain rfl := Option.some.inj htop
    refine ⟨hpending, rest, rfl, ?_⟩
    simp only [next?, hpending]

/-- A turn is a step of the walk, which takes a placed node if it is not inside of any. -/
theorem step_of_next? {s t : Stage} (hroots : ∀ id ∈ s.roots, id ∈ g.nodes.keys)
    (h : s.next? types g = some t) :
    Step types g s.toPosition t.toPosition ∧
      (s.frames = [] ∧ (∃ id, s.roots = id :: t.roots) ∨ s.frames ≠ [] ∧ t.roots = s.roots) := by
  obtain ⟨⟨frames, w⟩, roots⟩ := s
  cases frames with
  | nil =>
    cases roots with
    | nil => cases h
    | cons id roots =>
      cases h
      have hstep := @Walk.step_enter types g [] [] id (.root (hroots id List.mem_cons_self)) w
      rw [List.append_nil] at hstep
      exact ⟨hstep, Or.inl ⟨rfl, id, rfl⟩⟩
  | cons frame rest =>
    simp only [next?] at h
    split at h
    · next hpending =>
      cases h
      exact ⟨.leave hpending, Or.inr ⟨List.cons_ne_nil _ _, rfl⟩⟩
    · next d pending hpending =>
      cases h
      exact ⟨Walk.step_enter (.pending hpending rest) w, Or.inr ⟨List.cons_ne_nil _ _, rfl⟩⟩

/-- A stage that the walk through `g` can come to. -/
structure Reached (types : Catalogue) (g : Graph) (s : Stage) : Prop where
  roots : ∀ id ∈ s.roots, id ∈ g.nodes.keys
  position : s.toPosition.Reached types g

theorem Reached.start (types : Catalogue) (g : Graph) : (start g).Reached types g where
  roots _ h := h
  position := .refl

theorem Reached.next {s t : Stage} (h : s.Reached types g) (hnext : s.next? types g = some t) :
    t.Reached types g := by
  obtain ⟨hstep, hroots⟩ := step_of_next? h.roots hnext
  refine ⟨fun id hid => h.roots id ?_, h.position.tail hstep⟩
  rcases hroots with ⟨-, first, hfirst⟩ | ⟨-, hsame⟩
  · rw [hfirst]
    exact List.mem_cons_of_mem _ hid
  · rwa [← hsame]

/-! ### What the walk will have found -/

/-- What the walk finds when it goes on from a stage. -/
def completed (types : Catalogue) (g : Graph) (s : Stage) : Walk :=
  s.roots.foldl (Walk.visit types g) (Walk.run types g s.frames s.walk)

theorem run_enter (frame : Frame) (rest : List Frame) (w : Walk) {d : NodeId}
    {pending : List NodeId} (h : frame.pending = d :: pending) :
    Walk.run types g (frame :: rest) w =
      Walk.run types g ((w.enter types g d).2.toList ++ { frame with pending } :: rest)
        (w.enter types g d).1 := by
  obtain ⟨node, type, joints, dependencies, _⟩ := frame
  subst h
  rw [Walk.run]
  split
  · next w' henter =>
    dsimp only
    rw [henter]
    rfl
  · next w' child henter =>
    dsimp only
    rw [henter]
    rfl

theorem run_leave (frame : Frame) (rest : List Frame) (w : Walk) (h : frame.pending = []) :
    Walk.run types g (frame :: rest) w = Walk.run types g rest (w.leave frame) := by
  obtain ⟨node, type, joints, dependencies, _⟩ := frame
  subst h
  rw [Walk.run]

theorem visit_eq_run (w : Walk) (id : NodeId) :
    w.visit types g id =
      Walk.run types g (w.enter types g id).2.toList (w.enter types g id).1 := by
  unfold Walk.visit
  cases w.enter types g id with
  | mk w' frame =>
    cases frame with
    | none => exact (by rw [Option.toList_none, Walk.run])
    | some frame => rfl

theorem completed_of_next? {s t : Stage} (h : s.next? types g = some t) :
    t.completed types g = s.completed types g := by
  obtain ⟨⟨frames, w⟩, roots⟩ := s
  unfold completed
  cases frames with
  | nil =>
    cases roots with
    | nil => cases h
    | cons id roots =>
      cases h
      rw [List.foldl_cons, Walk.run, visit_eq_run]
  | cons frame rest =>
    simp only [next?] at h
    split at h
    · next hpending =>
      cases h
      dsimp only
      rw [run_leave frame rest w hpending]
    · next d pending hpending =>
      cases h
      dsimp only
      rw [run_enter frame rest w hpending]

theorem completed_of_halted {s : Stage} (h : s.next? types g = none) :
    s.completed types g = s.walk := by
  obtain ⟨⟨frames, w⟩, roots⟩ := s
  unfold completed
  cases frames with
  | nil =>
    cases roots with
    | nil => rw [List.foldl_nil, Walk.run]
    | cons id roots => cases h
  | cons frame rest =>
    simp only [next?] at h
    split at h <;> cases h

theorem completed_start (types : Catalogue) (g : Graph) :
    (start g).completed types g = ShaderNodes.walk types g := by
  unfold completed start ShaderNodes.walk
  rw [Walk.run]

end Stage

/-- The walk through a graph after `k` turns. -/
def stageAt (types : Catalogue) (g : Graph) (k : Nat) : Stage :=
  (turn (Stage.next? types g))^[k] (.start g)

namespace Stage

theorem stageAt_succ (types : Catalogue) (g : Graph) (k : Nat) :
    stageAt types g (k + 1) = turn (next? types g) (stageAt types g k) :=
  Function.iterate_succ_apply' ..

theorem reached_stageAt (types : Catalogue) (g : Graph) (k : Nat) :
    (stageAt types g k).Reached types g :=
  turns_induction (fun _ _ hs hnext => hs.next hnext) (.start types g) k

theorem tracked_stageAt (types : Catalogue) (g : Graph) (k : Nat) :
    (stageAt types g k).Tracked types g :=
  (reached_stageAt types g k).position.tracked

/-- A turn of the walk is a step, or the walk is over and nothing changes. -/
theorem step_stageAt (types : Catalogue) (g : Graph) (k : Nat) :
    Step types g (stageAt types g k).toPosition (stageAt types g (k + 1)).toPosition ∨
      stageAt types g (k + 1) = stageAt types g k := by
  rw [stageAt_succ]
  cases hnext : (stageAt types g k).next? types g with
  | none => exact Or.inr (turn_eq_self hnext)
  | some t =>
    rw [turn_eq hnext]
    exact Or.inl (step_of_next? (reached_stageAt types g k).roots hnext).1

/-- When there is no further turn, the walk is complete. -/
theorem walk_eq {types : Catalogue} {g : Graph} {k : Nat}
    (h : (stageAt types g k).next? types g = none) :
    (stageAt types g k).walk = ShaderNodes.walk types g := by
  have hsame : (stageAt types g k).completed types g = ShaderNodes.walk types g :=
    turns_induction (P := fun s => s.completed types g = ShaderNodes.walk types g)
      (fun _ _ hs hnext => (completed_of_next? hnext).trans hs) (completed_start types g) k
  rw [← completed_of_halted h, hsame]

end Stage

/-! ## The placing of fragments -/

/-- The placing of the fragments for a node after `k` turns. -/
def placementAt (w : Walk) (id : NodeId) (k : Nat) : Placement :=
  (turn (Placement.next? w))^[k] (.start id)

namespace Placement

/-- When there is no further turn, the fragments are in order. -/
theorem order_eq {w : Walk} {id : NodeId} {k : Nat} (h : (placementAt w id k).next? w = none) :
    (placementAt w id k).placed.reverse = w.order id := by
  have hsame : (placementAt w id k).run w = w.order id :=
    turns_induction (P := fun s : Placement => s.run w = w.order id)
      (fun _ _ hs hnext => (run_of_next? hnext).trans hs) rfl k
  rw [← run_of_halted h, hsame]

theorem placing_placementAt {types : Catalogue} {g : Graph} {n : NodeId} {f : Fragment}
    (h : (walk types g).fragment? n = some f) (k : Nat) :
    (walk types g).Placing n (placementAt (walk types g) n k) :=
  turns_induction (fun _ _ hs hnext => hs.of_next? (Walk.not_transGen_uses types g) hnext)
    (Walk.Placing.start h) k

end Placement

end ShaderNodes
