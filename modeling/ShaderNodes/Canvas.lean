import ShaderNodes.Emit.Program
import ShaderNodes.Load

/-!
# The canvas

What an editor works on: a catalogue and a graph over it. An edit either fails and changes nothing,
or gives the new canvas with its result and the events to report. Whether a graph makes sense is
left to its compilation, except that a node can only be placed if its type is known and joints can
only be drawn between nodes that exist.
-/

namespace ShaderNodes

/-- A catalogue and a graph over it. -/
structure Canvas where
  types : Catalogue
  graph : Graph
deriving DecidableEq

/-- Why an edit fails. -/
inductive EditError
  | unknownType (type : TypeId)
  | idsExhausted
  | nodeNotFound (node : NodeId)
  | sourceNotFound (node : NodeId)
  | destNotFound (node : NodeId)
deriving DecidableEq, Repr

/-- The reason in words. -/
def EditError.message : EditError → String
  | unknownType type => "unknown node type '" ++ type.text ++ "'"
  | idsExhausted => "node id space exhausted"
  | nodeNotFound node => "node " ++ node.text ++ " not found"
  | sourceNotFound node => "cannot connect from missing node " ++ node.text
  | destNotFound node => "cannot connect into missing node " ++ node.text

/-- The result of an edit. -/
structure Edited (α : Type) where
  /-- The canvas afterwards. -/
  canvas : Canvas
  /-- What the edit gives back. -/
  result : α
  /-- What it reports. -/
  events : List Event

namespace Canvas

/-- A canvas without nodes. -/
def new (types : Catalogue) : Canvas := ⟨types, .empty⟩

instance : Alike Canvas := ⟨fun a b => alike a.types b.types && alike a.graph b.graph⟩

/-- The canvas with other nodes. -/
def withNodes (c : Canvas) (nodes : Roster Node) : Canvas :=
  { c with graph := { c.graph with nodes } }

/-- The canvas with other joints. -/
def withJoints (c : Canvas) (joints : Roster Joint) : Canvas :=
  { c with graph := { c.graph with joints } }

/-- The node with the given number. -/
def node (c : Canvas) (id : NodeId) : Except EditError Node :=
  match c.graph.nodes.get? id with
  | some n => .ok n
  | none => .error (.nodeNotFound id)

/-- One more than the largest number in use, or one if there is none. -/
def nextId (c : Canvas) : Except EditError NodeId :=
  match (c.graph.nodes.keys.map fun id => id.val.toNat).max? with
  | none => .ok ⟨1⟩
  | some n => if n + 1 < UInt32.size then .ok ⟨UInt32.ofNat (n + 1)⟩ else .error .idsExhausted

/-- Places a node with the default values of its parameters. -/
def add (c : Canvas) (type : TypeId) (offset : Point) : Except EditError (Edited NodeId) := do
  match c.types.get? type with
  | none => throw (.unknownType type)
  | some t =>
    let id ← c.nextId
    let params := .ofList (t.params.entries.map fun p => ⟨p.name, Value.default p.type⟩)
    pure ⟨c.withNodes (c.graph.nodes.put ⟨id, type, offset, params⟩), id, [.nodeAdded id type]⟩

/-- Binds a value to a parameter. -/
def setParam (c : Canvas) (id : NodeId) (param : String) (value : Value) :
    Except EditError (Edited Unit) := do
  let n ← c.node id
  let n := { n with params := n.params.put ⟨param, value⟩ }
  pure ⟨c.withNodes (c.graph.nodes.put n), (), [.paramSet id param]⟩

/-- Moves a node to another place. -/
def move (c : Canvas) (id : NodeId) (offset : Point) : Except EditError (Edited Unit) := do
  let n ← c.node id
  pure ⟨c.withNodes (c.graph.nodes.put { n with offset }), (), []⟩

/-- Draws a joint, in place of the one that led to the same inlet. -/
def connect (c : Canvas) (source : Outlet) (dest : Inlet) : Except EditError (Edited Unit) :=
  if !c.graph.nodes.contains source.node then .error (.sourceNotFound source.node)
  else if !c.graph.nodes.contains dest.node then .error (.destNotFound dest.node)
  else .ok ⟨c.withJoints (c.graph.joints.put ⟨dest, source⟩), (),
    [.connected source.node source.output dest.node dest.input]⟩

/-- Removes the joint into an inlet, if there is one. -/
def disconnect (c : Canvas) (dest : Inlet) : Option (Edited Joint) :=
  (c.graph.joints.get? dest).map fun j =>
    ⟨c.withJoints (c.graph.joints.erase dest), j, [.disconnected dest.node dest.input]⟩

/-- Removes a node with all joints that touch it. -/
def delete (c : Canvas) (id : NodeId) : Except EditError (Edited Node) := do
  let n ← c.node id
  let joints := c.graph.joints.filter fun j => j.source.node ≠ id && j.dest.node ≠ id
  pure ⟨{ c with graph := ⟨c.graph.nodes.erase id, joints⟩ }, n,
    [.nodeDeleted id (c.graph.joints.size - joints.size)]⟩

/-- Takes over a graph; the types stay. -/
def load (c : Canvas) (g : Graph) : Edited Unit :=
  ⟨{ c with graph := g }, (), [.graphLoaded g.nodes.size g.joints.size]⟩

/-- Compiles the graph. -/
def compile (c : Canvas) (env : Envelope) : Logged Previews := c.graph.compile c.types env

end Canvas

end ShaderNodes
