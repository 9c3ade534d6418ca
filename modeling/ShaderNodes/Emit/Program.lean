import ShaderNodes.Emit.Walk
import ShaderNodes.Envelope

/-!
# Programs

The program of a node is put together from the fragments of the node and of everything in front of
it: global declarations, each once, then the code of the fragments, those in front first, and last a
statement that hands the result of the node to the screen.
-/

namespace ShaderNodes

/-- A complete program, line by line. -/
structure Program where
  lines : List String
deriving DecidableEq, Repr

namespace Program

/-- The text, without a line break at its end. -/
def text (p : Program) : String := "\n".intercalate p.lines

/-- The text, each line ended by a line break. -/
def printed (p : Program) : String := String.join (p.lines.map fun line => line ++ "\n")

end Program

/-- A program, or all errors of the graph. -/
abbrev Preview := Checked Diagnostic Program

namespace Walk

/-! ## The order of fragments -/

/-- A node on the way through the fragments, with the position of the next node in front of it that
is to be looked at. -/
structure Stop where
  node : NodeId
  next : Nat

/-- The nodes in front that are still to be looked at; none for a node that has failed. -/
def Stop.pending (w : Walk) (s : Stop) : List NodeId :=
  match w.fragment? s.node with
  | none => []
  | some f => f.dependencies.drop s.next

/-- Slots of nodes that are not in `seen`. -/
def unseen (w : Walk) (seen : List NodeId) : Nat := w.slots.keys.countP fun id => decide (id ∉ seen)

/-- Steps left on the stops, apart from those that further nodes will bring. -/
def stepsLeft (w : Walk) : List Stop → Nat
  | [] => 0
  | s :: rest => (s.pending w).length + 1 + stepsLeft w rest

theorem mem_keys_of_fragment? {w : Walk} {id : NodeId} {f : Fragment}
    (h : w.fragment? id = some f) : id ∈ w.slots.keys := by
  unfold fragment? outcome? state? at h
  cases hget : w.slots.get? id with
  | none => simp [hget] at h
  | some slot =>
    have hmem := List.mem_of_find?_eq_some hget
    have hkey : key slot = id := by simpa using List.find?_some hget
    exact List.mem_map.2 ⟨slot, hmem, hkey⟩

theorem unseen_cons_lt (w : Walk) {seen : List NodeId} {id : NodeId} (hkey : id ∈ w.slots.keys)
    (hseen : id ∉ seen) : w.unseen (id :: seen) < w.unseen seen := by
  unfold unseen
  generalize w.slots.keys = ids at hkey
  have hle (l : List NodeId) : l.countP (fun x => decide (x ∉ id :: seen)) ≤
      l.countP fun x => decide (x ∉ seen) :=
    List.countP_mono_left fun x _ hx => by simp_all
  induction ids with
  | nil => simp at hkey
  | cons x ids ih =>
    have hx := hle ids
    simp only [List.countP_cons]
    rcases List.mem_cons.1 hkey with rfl | hmem
    · simp [hseen] at hx ⊢
      omega
    · exact Nat.add_lt_add_of_lt_of_le (ih hmem) (count_of_imp fun hx => by simp_all)

theorem Stop.pending_of_fragment? {w : Walk} {id : NodeId} {next : Nat} {f : Fragment}
    (h : w.fragment? id = some f) : Stop.pending w ⟨id, next⟩ = f.dependencies.drop next := by
  simp only [pending, h]

theorem Stop.pending_eq_cons {w : Walk} {id d : NodeId} {next : Nat} {f : Fragment}
    (hf : w.fragment? id = some f) (hnext : f.dependencies[next]? = some d) :
    Stop.pending w ⟨id, next⟩ = d :: Stop.pending w ⟨id, next + 1⟩ := by
  obtain ⟨hlt, rfl⟩ := List.getElem?_eq_some_iff.1 hnext
  rw [pending_of_fragment? hf, pending_of_fragment? hf]
  exact List.drop_eq_getElem_cons hlt

end Walk

/-- How far the placing of fragments has come. -/
structure Placement where
  /-- The nodes that have been met. -/
  seen : List NodeId
  /-- Those whose fragments have their place, the last one first. -/
  placed : List NodeId
  /-- The stops on the way, the innermost first. -/
  stops : List Walk.Stop

namespace Placement

/-- The placement before the first turn. -/
def start (id : NodeId) : Placement := ⟨[id], [], [⟨id, 0⟩]⟩

/-- The placement after the next turn. A node that has failed is dropped when its turn comes, and
one with nothing pending is placed; else the next node in front is looked at, and gone to if it has
a slot and has not been met before. -/
def next? (w : Walk) : Placement → Option Placement
  | ⟨_, _, []⟩ => none
  | ⟨seen, placed, ⟨id, next⟩ :: rest⟩ =>
    match w.fragment? id with
    | none => some ⟨seen, placed, rest⟩
    | some f =>
      match f.dependencies[next]? with
      | none => some ⟨seen, id :: placed, rest⟩
      | some d =>
        if d ∈ w.slots.keys ∧ d ∉ seen then
          some ⟨d :: seen, placed, ⟨d, 0⟩ :: ⟨id, next + 1⟩ :: rest⟩
        else some ⟨seen, placed, ⟨id, next + 1⟩ :: rest⟩

/-- Everything a turn can do. -/
inductive Turn (w : Walk) : Placement → Placement → Prop
  | drop {seen placed : List NodeId} {id : NodeId} {next : Nat} {rest : List Walk.Stop}
    (hf : w.fragment? id = none) :
    Turn w ⟨seen, placed, ⟨id, next⟩ :: rest⟩ ⟨seen, placed, rest⟩
  | place {seen placed : List NodeId} {id : NodeId} {next : Nat} {rest : List Walk.Stop}
    {f : Fragment} (hf : w.fragment? id = some f) (hnext : f.dependencies[next]? = none) :
    Turn w ⟨seen, placed, ⟨id, next⟩ :: rest⟩ ⟨seen, id :: placed, rest⟩
  | push {seen placed : List NodeId} {id d : NodeId} {next : Nat} {rest : List Walk.Stop}
    {f : Fragment} (hf : w.fragment? id = some f) (hnext : f.dependencies[next]? = some d)
    (hd : d ∈ w.slots.keys ∧ d ∉ seen) :
    Turn w ⟨seen, placed, ⟨id, next⟩ :: rest⟩
      ⟨d :: seen, placed, ⟨d, 0⟩ :: ⟨id, next + 1⟩ :: rest⟩
  | skip {seen placed : List NodeId} {id d : NodeId} {next : Nat} {rest : List Walk.Stop}
    {f : Fragment} (hf : w.fragment? id = some f) (hnext : f.dependencies[next]? = some d)
    (hd : ¬ (d ∈ w.slots.keys ∧ d ∉ seen)) :
    Turn w ⟨seen, placed, ⟨id, next⟩ :: rest⟩ ⟨seen, placed, ⟨id, next + 1⟩ :: rest⟩

theorem turn_of_next? {w : Walk} {s t : Placement} (h : s.next? w = some t) : s.Turn w t := by
  obtain ⟨seen, placed, stops⟩ := s
  cases stops with
  | nil => cases h
  | cons stop rest =>
    simp only [next?] at h
    split at h
    · next hf =>
      cases h
      exact .drop hf
    · next f hf =>
      split at h
      · next hnext =>
        cases h
        exact .place hf hnext
      · next d hnext =>
        split at h
        · next hd =>
          cases h
          exact .push hf hnext hd
        · next hd =>
          cases h
          exact .skip hf hnext hd

/-- A turn goes to a node that has not been met, or leaves less to do on the stops. -/
theorem Turn.decreases {w : Walk} {s t : Placement} (h : s.Turn w t) :
    Prod.Lex (· < ·) (· < ·) (w.unseen t.seen, w.stepsLeft t.stops)
      (w.unseen s.seen, w.stepsLeft s.stops) := by
  cases h with
  | drop | place =>
    refine Prod.Lex.right _ ?_
    simp only [Walk.stepsLeft]
    omega
  | push _ _ hd => exact Prod.Lex.left _ _ (w.unseen_cons_lt hd.1 hd.2)
  | skip hf hnext =>
    refine Prod.Lex.right _ ?_
    simp only [Walk.stepsLeft, Walk.Stop.pending_eq_cons hf hnext, List.length_cons]
    omega

/-- Goes through the fragments depth first until there is no further turn. -/
def run (w : Walk) (s : Placement) : List NodeId :=
  match h : s.next? w with
  | none => s.placed.reverse
  | some t =>
    have := (turn_of_next? h).decreases
    run w t
termination_by (w.unseen s.seen, w.stepsLeft s.stops)
decreasing_by exact this

end Placement

/-- The nodes whose fragments make up the program of a node, those in front first. -/
def Walk.order (w : Walk) (id : NodeId) : List NodeId := (Placement.start id).run w

namespace Program

/-- Hands the result of a node to the screen; a scalar is shown as a shade of gray. -/
def sinkStatement (env : Envelope) (v : Variable) : String :=
  match v.type with
  | .scalar =>
    env.sink ++ " = vec4(" ++ v.name ++ ", " ++ v.name ++ ", " ++ v.name ++ ", 1.0);"
  | .color => env.sink ++ " = vec4(" ++ v.name ++ ".rgb, 1.0);"

/-- The program made of the given fragments. -/
def ofFragments (env : Envelope) (fragments : List Fragment) (result : Variable) : Program :=
  let globals := firstOccurrences (fragments.flatMap fun f => f.globals.entries)
  let body := fragments.flatMap Fragment.code ++ [sinkStatement env result]
  ⟨[env.version, env.precision] ++ globals ++ [env.entryPoint]
    ++ body.map (fun line => env.indent ++ line) ++ ["\x7d"]⟩

/-- The program of a node after a walk. `errors` are all errors of the walk. -/
def assemble (w : Walk) (env : Envelope) (errors : List Diagnostic) (id : NodeId) : Preview :=
  match w.fragment? id with
  | none => .error errors
  | some f =>
    match f.output? .all with
    | none => .error [⟨id, .resultNotFound⟩]
    | some result => .ok (ofFragments env ((w.order id).filterMap w.fragment?) result)

end Program

/-- The previews of all nodes of a graph, in order. -/
abbrev Previews := List (NodeId × Preview)

/-- Compiles a graph: one preview per node. -/
def Graph.compile (types : Catalogue) (env : Envelope) (g : Graph) : Logged Previews :=
  let w := walk types g
  let errors := w.errors
  let previews := g.nodes.keys.map fun id => (id, Program.assemble w env errors id)
  let failed := previews.countP fun p => !p.2.succeeds
  ⟨[.compileStarted g.nodes.size g.joints.size types.size] ++ w.events.reverse
    ++ [.compileDone failed previews.length], previews⟩

end ShaderNodes
