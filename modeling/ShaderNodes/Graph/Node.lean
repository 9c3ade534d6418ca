import ShaderNodes.Graph.NodeType

/-!
# Nodes, joints and graphs

A node is a placed instance of a node type with values bound to parameters. A joint leads from an
output of one node to an input of another; joints are kept by the input they lead to, so an input
has one source at most. Nothing requires the ends of a joint to exist.
-/

namespace ShaderNodes

/-- A place on the canvas. -/
structure Point where
  x : Double
  y : Double
deriving DecidableEq

namespace Point

/-- The corner where both coordinates are zero. -/
def origin : Point := ⟨.zero, .zero⟩

instance : Alike Point := ⟨fun p q => alike p.x q.x && alike p.y q.y⟩

end Point

/-- A value bound to a parameter. -/
structure Binding where
  /-- The name of the parameter. -/
  param : String
  /-- The value. -/
  value : Value
deriving DecidableEq

instance : Keyed Binding String := ⟨Binding.param⟩

instance : Alike Binding := ⟨fun a b => decide (a.param = b.param) && alike a.value b.value⟩

/-- A placed node. -/
structure Node where
  /-- The number of the node. -/
  id : NodeId
  /-- The name of its type. -/
  type : TypeId
  /-- Its place on the canvas. -/
  offset : Point
  /-- The bound parameters. -/
  params : Roster Binding
deriving DecidableEq

instance : Keyed Node NodeId := ⟨Node.id⟩

namespace Node

/-- The value bound to a parameter. -/
def value? (n : Node) (param : String) : Option Value := (n.params.get? param).map Binding.value

instance : Alike Node where
  alike m n := decide (m.id = n.id) && alike m.type n.type && alike m.offset n.offset
    && alike m.params n.params

end Node

/-- An input of a node. -/
structure Inlet where
  node : NodeId
  input : String
deriving DecidableEq, Repr

namespace Inlet

/-- Inlets are listed by node, then by name. -/
def le (a b : Inlet) : Bool :=
  a.node.val < b.node.val || (a.node = b.node && a.input ≤ b.input)

end Inlet

/-- An output of a node. -/
structure Outlet where
  node : NodeId
  output : Output
deriving DecidableEq, Repr

/-- A connection from an outlet to an inlet. -/
structure Joint where
  dest : Inlet
  source : Outlet
deriving DecidableEq, Repr

instance : Keyed Joint Inlet := ⟨Joint.dest⟩

instance : Alike Joint := ⟨fun a b => decide (a = b)⟩

/-- Nodes and the joints between them. -/
structure Graph where
  nodes : Roster Node
  joints : Roster Joint
deriving DecidableEq

namespace Graph

/-- The graph without nodes. -/
def empty : Graph := ⟨.empty, .empty⟩

instance : Alike Graph := ⟨fun g h => alike g.nodes h.nodes && alike g.joints h.joints⟩

end Graph

end ShaderNodes
