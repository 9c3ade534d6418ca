import Mathlib
import ShaderNodes.Proofs.Histories

/-!
# Edits in place

An editor keeps one canvas and calls for changes of it. A call checks its arguments, reports what it
does and replaces nodes and joints as it goes, so it could fail with the work half done. None does:
each call comes to what the edit of the same name says, and a call that fails leaves everything as
it was.

* `Call`: what changes a canvas in place;
* `Call.Performs`: a call does what an edit says, or fails like it and changes nothing;
* `Desk.carryOut_spec`: so it is for every edit.
-/

namespace ShaderNodes

/-- What calls work on: a canvas, and the events so far. -/
structure Desk where
  canvas : Canvas
  events : List Event

/-- A call that changes the desk step by step, and may fail on the way. -/
abbrev Call (ε α : Type) := ExceptT ε (StateM Desk) α

namespace Call

variable {ε α β : Type}

/-- What a call gives back, and the desk that it leaves behind, also when it fails. -/
def on (call : Call ε α) (d : Desk) : Except ε α × Desk := call.run.run d

/-! ## Steps -/

/-- The canvas as it is now. -/
def canvas : Call ε Canvas := return (← get).canvas

/-- Goes on with the value of `x`, or fails. -/
def require (x : Except ε α) : Call ε α := ExceptT.mk (pure x)

def report (e : Event) : Call ε Unit := modify fun d => { d with events := d.events ++ [e] }

def assignNodes (nodes : Roster Node) : Call ε Unit :=
  modify fun d => { d with canvas := d.canvas.withNodes nodes }

def assignJoints (joints : Roster Joint) : Call ε Unit :=
  modify fun d => { d with canvas := d.canvas.withJoints joints }

theorem on_canvas_bind (f : Canvas → Call ε α) (d : Desk) :
    on (canvas >>= f) d = on (f d.canvas) d := rfl

theorem on_require_bind (a : α) (f : α → Call ε β) (d : Desk) :
    on (require (.ok a) >>= f) d = on (f a) d := rfl

/-! ## Calls -/

def add (type : TypeId) (offset : Point) : Call EditError NodeId := do
  let t ← require (((← canvas).types.get? type).elim (.error (.unknownType type)) .ok)
  let id ← require (← canvas).nextId
  report (.nodeAdded id type)
  assignNodes ((← canvas).graph.nodes.put ⟨id, type, offset, Canvas.defaults t⟩)
  return id

def setParam (id : NodeId) (param : String) (value : Value) : Call EditError Unit := do
  let n ← require ((← canvas).node id)
  report (.paramSet id param)
  assignNodes ((← canvas).graph.nodes.put { n with params := n.params.put ⟨param, value⟩ })

def move (id : NodeId) (offset : Point) : Call EditError Unit := do
  let n ← require ((← canvas).node id)
  assignNodes ((← canvas).graph.nodes.put { n with offset })

def connect (source : Outlet) (dest : Inlet) : Call EditError Unit := do
  if !(← canvas).graph.nodes.contains source.node then throw (.sourceNotFound source.node)
  if !(← canvas).graph.nodes.contains dest.node then throw (.destNotFound dest.node)
  report (.connected source.node source.output dest.node dest.input)
  assignJoints ((← canvas).graph.joints.put ⟨dest, source⟩)

def disconnect (dest : Inlet) : Call Unit Joint := do
  let j ← require (((← canvas).graph.joints.get? dest).elim (.error ()) .ok)
  report (.disconnected dest.node dest.input)
  assignJoints ((← canvas).graph.joints.erase dest)
  return j

/-- The node goes first, then the joints that touch it, and the report counts those at the end. -/
def delete (id : NodeId) : Call EditError Node := do
  let n ← require ((← canvas).node id)
  assignNodes ((← canvas).graph.nodes.erase id)
  let before := (← canvas).graph.joints.size
  assignJoints ((← canvas).graph.joints.filter fun j => j.source.node ≠ id && j.dest.node ≠ id)
  report (.nodeDeleted id (before - (← canvas).graph.joints.size))
  return n

/-! ## Calls and edits -/

/-- What an edit comes to on a desk: its result, the new canvas and its events on top of those that
were there; or its error, and the desk as it was. -/
def settle (d : Desk) : Except ε (Edited α) → Except ε α × Desk
  | .ok e => (.ok e.result, ⟨e.canvas, d.events ++ e.events⟩)
  | .error err => (.error err, d)

/-- The call does to every desk what the edit says. -/
def Performs (call : Call ε α) (edit : Canvas → Except ε (Edited α)) : Prop :=
  ∀ d, on call d = settle d (edit d.canvas)

theorem performs_add (type : TypeId) (offset : Point) :
    Performs (add type offset) (Canvas.add · type offset) := by
  intro d
  unfold add Canvas.add
  cases htype : d.canvas.types.get? type with
  | none =>
    simp only [on_canvas_bind, htype]
    rfl
  | some t =>
    cases hid : d.canvas.nextId with
    | error err =>
      simp only [on_canvas_bind, htype, Option.elim_some, on_require_bind, hid]
      rfl
    | ok id =>
      simp only [on_canvas_bind, htype, Option.elim_some, on_require_bind, hid]
      rfl

theorem performs_setParam (id : NodeId) (param : String) (value : Value) :
    Performs (setParam id param value) (Canvas.setParam · id param value) := by
  intro d
  unfold setParam Canvas.setParam
  simp only [on_canvas_bind]
  cases d.canvas.node id with
  | error err => rfl
  | ok n => rfl

theorem performs_move (id : NodeId) (offset : Point) :
    Performs (move id offset) (Canvas.move · id offset) := by
  intro d
  unfold move Canvas.move
  simp only [on_canvas_bind]
  cases d.canvas.node id with
  | error err => rfl
  | ok n => exact congrArg (fun events => (_, Desk.mk _ events)) (List.append_nil d.events).symm

theorem performs_connect (source : Outlet) (dest : Inlet) :
    Performs (connect source dest) (Canvas.connect · source dest) := by
  intro d
  unfold connect Canvas.connect
  simp only [on_canvas_bind]
  cases hsource : d.canvas.graph.nodes.contains source.node with
  | false => rfl
  | true =>
    cases hdest : d.canvas.graph.nodes.contains dest.node with
    | false =>
      simp only [Bool.not_true, Bool.false_eq_true, if_false, on_canvas_bind, hdest]
      rfl
    | true =>
      simp only [Bool.not_true, Bool.false_eq_true, if_false, on_canvas_bind, hdest]
      rfl

theorem performs_disconnect (dest : Inlet) :
    Performs (disconnect dest) fun c => (c.disconnect dest).elim (.error ()) .ok := by
  intro d
  unfold disconnect Canvas.disconnect
  simp only [on_canvas_bind]
  cases d.canvas.graph.joints.get? dest with
  | none => rfl
  | some j => rfl

theorem performs_delete (id : NodeId) : Performs (delete id) (Canvas.delete · id) := by
  intro d
  unfold delete Canvas.delete
  simp only [on_canvas_bind]
  cases d.canvas.node id with
  | error err => rfl
  | ok n => rfl

/-- A call that performs an edit fails with it and leaves the desk alone, or succeeds with it. -/
theorem Performs.map_isOk {call : Call ε α} {edit : Canvas → Except ε (Edited α)}
    (h : call.Performs edit) (d : Desk) :
    ((edit d.canvas).toOption.map Edited.canvas = none →
      (on call d).map Except.isOk id = (false, d)) ∧
    ∀ c, (edit d.canvas).toOption.map Edited.canvas = some c →
      ∃ events, (on call d).map Except.isOk id = (true, ⟨c, d.events ++ events⟩) := by
  rw [h d]
  cases edit d.canvas with
  | error err => exact ⟨fun _ => rfl, fun c hc => by cases hc⟩
  | ok e =>
    refine ⟨fun hnone => (by cases hnone), fun c hc => ⟨e.events, ?_⟩⟩
    obtain rfl : e.canvas = c := Option.some.inj hc
    rfl

end Call

namespace Desk

/-- Carries out an edit in place. Says whether it succeeded, and what is left behind. -/
def carryOut (d : Desk) : Edit → Bool × Desk
  | .add type offset => (Call.on (.add type offset) d).map Except.isOk id
  | .setParam node param value => (Call.on (.setParam node param value) d).map Except.isOk id
  | .move node offset => (Call.on (.move node offset) d).map Except.isOk id
  | .connect source dest => (Call.on (.connect source dest) d).map Except.isOk id
  | .disconnect dest => (Call.on (.disconnect dest) d).map Except.isOk id
  | .delete node => (Call.on (.delete node) d).map Except.isOk id

/-- An edit that fails leaves everything as it was. -/
theorem carryOut_spec (d : Desk) (edit : Edit) :
    (d.canvas.edit? edit = none → d.carryOut edit = (false, d)) ∧
    ∀ c, d.canvas.edit? edit = some c →
      ∃ events, d.carryOut edit = (true, ⟨c, d.events ++ events⟩) := by
  cases edit with
  | add type offset => exact (Call.performs_add type offset).map_isOk d
  | setParam node param value => exact (Call.performs_setParam node param value).map_isOk d
  | move node offset => exact (Call.performs_move node offset).map_isOk d
  | connect source dest => exact (Call.performs_connect source dest).map_isOk d
  | disconnect dest =>
    have hperforms := (Call.performs_disconnect dest).map_isOk d
    have hoption : ((d.canvas.disconnect dest).elim (.error ()) Except.ok).toOption =
        d.canvas.disconnect dest := by
      cases d.canvas.disconnect dest <;> rfl
    rwa [hoption] at hperforms
  | delete node => exact (Call.performs_delete node).map_isOk d

end Desk

end ShaderNodes
