import ShaderNodes.Graph.Id
import ShaderNodes.Graph.Value

/-!
# Events

Everything the library reports beside its results. An event is data: its severity, the part that
reports it and its wording are functions of it. A `Logged` value carries the events that led to it,
in order.
-/

namespace ShaderNodes

/-- How much an event matters, the most severe first. -/
inductive Severity
  | error
  | warn
  | info
  | debug
  | trace
deriving DecidableEq, Repr

namespace Severity

/-- Position in the order of severity. -/
def rank : Severity → Nat
  | error => 0
  | warn => 1
  | info => 2
  | debug => 3
  | trace => 4

/-- The name of a severity. -/
def text : Severity → String
  | error => "ERROR"
  | warn => "WARN"
  | info => "INFO"
  | debug => "DEBUG"
  | trace => "TRACE"

end Severity

/-- Something that was reported. -/
inductive Event
  /-- A type name was read that is not of the form `category/name`. -/
  | malformedTypeId (text : String)
  /-- A cycle of joints was met; `path` starts and ends with the same node. -/
  | cycleDetected (path : List NodeId)
  /-- The compilation of a node begins. -/
  | nodeEntered (node : NodeId)
  /-- The compilation of a graph begins. -/
  | compileStarted (nodes joints types : Nat)
  /-- The compilation of a graph is over. -/
  | compileDone (failed total : Nat)
  | nodeAdded (node : NodeId) (type : TypeId)
  | paramSet (node : NodeId) (param : String)
  | connected (source : NodeId) (output : Output) (dest : NodeId) (input : String)
  | disconnected (dest : NodeId) (input : String)
  | nodeDeleted (node : NodeId) (joints : Nat)
  | graphLoaded (nodes joints : Nat)
  /-- A user's catalogue is laid over the bundled one. -/
  | cataloguesMerged (types : Nat) (path : String)
  /-- The graph of a file has been compiled. -/
  | graphCompiled (nodes : Nat) (path : String)
  /-- A requested preview has failed. -/
  | previewFailed (node : NodeId) (errors : Nat)
deriving DecidableEq, Repr

/-- Nodes along a path, from its start. -/
def pathText (path : List NodeId) : String := " -> ".intercalate (path.map NodeId.text)

namespace Event

/-- The severity of an event. -/
def severity : Event → Severity
  | malformedTypeId _ | cycleDetected _ => .warn
  | nodeEntered _ => .trace
  | cataloguesMerged .. | graphCompiled .. => .info
  | previewFailed .. => .error
  | _ => .debug

/-- The part that reports an event. -/
def origin : Event → String
  | malformedTypeId _ => "shader_graph::model"
  | cycleDetected _ | nodeEntered _ => "shader_graph::compiler::pass"
  | compileStarted .. | compileDone .. => "shader_graph::compiler"
  | cataloguesMerged .. | graphCompiled .. | previewFailed .. => "shader_graph"
  | _ => "shader_graph::document"

/-- The wording of an event. -/
def message : Event → String
  | malformedTypeId text => "malformed node type id '" ++ text ++ "', treating it as unknown"
  | cycleDetected path => "cycle detected: " ++ pathText path
  | nodeEntered node => "compiling node " ++ node.text
  | compileStarted nodes joints types =>
    "compile pass: " ++ natText nodes ++ " node(s), " ++ natText joints ++ " joint(s), "
      ++ natText types ++ " type(s)"
  | compileDone failed total =>
    "compile pass done: " ++ natText failed ++ " of " ++ natText total ++ " preview(s) failed"
  | nodeAdded node type => "add node " ++ node.text ++ " of type " ++ type.text
  | paramSet node param => "set param " ++ param ++ " of node " ++ node.text
  | connected source output dest input =>
    "connect " ++ source.text ++ "." ++ output.text ++ " -> " ++ dest.text ++ "." ++ input
  | disconnected dest input => "disconnect " ++ dest.text ++ "." ++ input
  | nodeDeleted node joints =>
    "delete node " ++ node.text ++ " and " ++ natText joints ++ " joint(s)"
  | graphLoaded nodes joints =>
    "load " ++ natText nodes ++ " node(s), " ++ natText joints ++ " joint(s)"
  | cataloguesMerged types path => "merging " ++ natText types ++ " node type(s) from " ++ path
  | graphCompiled nodes path => "compiled " ++ natText nodes ++ " node(s) from " ++ path
  | previewFailed node errors =>
    "node " ++ node.text ++ " failed to compile (" ++ natText errors ++ " error(s))"

end Event

/-- A value together with the events that led to it. -/
structure Logged (α : Type) where
  /-- The events in order. -/
  events : List Event
  /-- The value. -/
  value : α

namespace Logged

/-- Reports one event. -/
def emit (e : Event) : Logged Unit := ⟨[e], ()⟩

instance : Monad Logged where
  pure a := ⟨[], a⟩
  bind x k := let y := k x.value; ⟨x.events ++ y.events, y.value⟩

instance : LawfulMonad Logged := LawfulMonad.mk' Logged
  (fun x => by simp [Functor.map, List.append_nil])
  (fun a k => by simp [bind, pure])
  (fun x j k => by simp [bind, List.append_assoc])

end Logged

end ShaderNodes
