import ShaderNodes.Checked
import ShaderNodes.Emit.Template
import ShaderNodes.Graph.Node

/-!
# Fragments

The code that a single node contributes to a program. To compile a node, its inputs are resolved to
variables of the nodes in front of it, an overload is chosen by their types, parameters become
literals, and the template of the overload is filled in. Everything that is wrong with a node is
reported at once; a node fails without a report of its own when only a node in front of it failed.
-/

namespace ShaderNodes

/-- What can be wrong with a node. -/
inductive Problem
  | nodeNotFound
  | typeNotFound (type : TypeId)
  | notConnected (input : String)
  /-- The source of an input has no outcome. -/
  | sourceNotFound (input : String)
  | outputNotFound (output : Output) (source : NodeId) (input : String)
  | noOverload
  | paramNotSet (param : String)
  | paramMistyped (param : String) (expected found : ValueType)
  /-- The node lies on a cycle; `path` starts and ends with it. -/
  | cycle (path : List NodeId)
  /-- The node has no result as a whole. -/
  | resultNotFound
deriving DecidableEq, Repr

/-- A problem in words. -/
def Problem.message : Problem → String
  | nodeNotFound => "Node not found"
  | typeNotFound type => "Type '" ++ type.text ++ "' not found"
  | notConnected input => "Input '" ++ input ++ "' not connected"
  | sourceNotFound input => "Node for input '" ++ input ++ "' not found"
  | outputNotFound output source input =>
    "Output '" ++ output.text ++ "' of node " ++ source.text ++ " not found for input '"
      ++ input ++ "'"
  | noOverload => "No suitable overload found"
  | paramNotSet param => "Parameter '" ++ param ++ "' not set"
  | paramMistyped param expected found =>
    "Parameter '" ++ param ++ "' has wrong type, expected '" ++ expected.text ++ "', got '"
      ++ found.text ++ "'"
  | cycle path => "Cyclic dependency found: " ++ pathText path
  | resultNotFound => "Output 'All' not found"

/-- A problem with the node it belongs to. -/
structure Diagnostic where
  node : NodeId
  problem : Problem
deriving DecidableEq, Repr

/-- A diagnostic in words. -/
def Diagnostic.text (d : Diagnostic) : String :=
  "node " ++ d.node.text ++ ": " ++ d.problem.message

/-- An expression that later code can read. -/
structure Variable where
  /-- The expression. -/
  name : String
  /-- The type of its value. -/
  type : ValueType
deriving DecidableEq, Repr

namespace Variable

/-- The channels of a color and how they are read. -/
def swizzles : List (Output × String) :=
  [(.red, "r"), (.green, "g"), (.blue, "b"), (.alpha, "a")]

/-- What a node exposes whose result is this variable: the whole result, and the channels if it is a
color. -/
def outputs (v : Variable) : List (Output × Variable) :=
  (.all, v) :: match v.type with
    | .scalar => []
    | .color => swizzles.map fun (o, s) => (o, ⟨v.name ++ "." ++ s, .scalar⟩)

end Variable

/-- The code of a node. -/
structure Fragment where
  /-- The nodes in front of it, each once. -/
  dependencies : List NodeId
  /-- Declarations that the code relies on. -/
  globals : Roster String
  /-- The lines of the code. -/
  code : List String
  /-- What the node exposes. -/
  outputs : List (Output × Variable)
deriving DecidableEq

/-- A fragment, or everything that is wrong with the node. -/
abbrev Outcome := Checked Diagnostic Fragment

namespace Fragment

/-- What an output of the node is called. -/
def output? (f : Fragment) (o : Output) : Option Variable := f.outputs.lookup o

/-- The placeholder of the name of the node. -/
def nodePlaceholder : String := "#node"

/-- The placeholder of an input. -/
def inputPlaceholder (input : String) : String := "#input" ++ input

/-- The placeholder of a parameter. -/
def paramPlaceholder (param : String) : String := "#param" ++ param

/-- The variable behind an input. -/
def resolveInput (node : NodeId) (joints : List Joint) (lookup : NodeId → Option Outcome)
    (input : String) : Checked Diagnostic (String × Variable) :=
  match joints.find? fun j => j.dest.input = input with
  | none => .error [⟨node, .notConnected input⟩]
  | some j =>
    match lookup j.source.node with
    | some (.ok source) =>
      match source.output? j.source.output with
      | some v => .ok (inputPlaceholder input, v)
      | none => .error [⟨node, .outputNotFound j.source.output j.source.node input⟩]
    | some (.error _) => .error []
    | none => .error [⟨node, .sourceNotFound input⟩]

/-- The literal of a parameter. -/
def resolveParam (node : Node) (param : Param) : Except Diagnostic (String × String) :=
  match node.value? param.name with
  | none => .error ⟨node.id, .paramNotSet param.name⟩
  | some v =>
    if v.type = param.type then .ok (paramPlaceholder param.name, v.code)
    else .error ⟨node.id, .paramMistyped param.name param.type v.type⟩

/-- The overload for resolved inputs. -/
def chooseOverload (node : NodeId) (type : NodeType) (inputs : List (String × Variable)) :
    Checked Diagnostic (Overload × ValueType) :=
  match type.overload? (inputs.map fun i => i.2.type) with
  | some chosen => .ok chosen
  | none => .error [⟨node, .noOverload⟩]

/-- What the placeholders of a node stand for. -/
def table (node : NodeId) (inputs : List (String × Variable)) (params : List (String × String)) :
    Template.Table :=
  inputs.map (fun i => (i.1, i.2.name)) ++ params ++ [(nodePlaceholder, node.stem)]

/-- The variable that holds the result of a node. -/
def resultName (node : NodeId) : String := node.stem ++ "_result"

/-- Compiles a node. `joints` are the joints into it, and `lookup` gives the outcomes of the nodes
in front of it. -/
def compile (node : Node) (type : NodeType) (joints : List Joint) (dependencies : List NodeId)
    (lookup : NodeId → Option Outcome) : Outcome := do
  let inputs := Checked.all (type.inputs.entries.map (resolveInput node.id joints lookup))
  let chosen := do
    let inputs ← inputs
    let overload ← chooseOverload node.id type inputs
    pure (inputs, overload)
  let params := Checked.each (type.params.entries.map (resolveParam node))
  let ((inputs, overload, result), params) ← Checked.both chosen params
  pure {
    dependencies
    globals := type.globals
    code := Template.fill (table node.id inputs params) overload.code
    outputs := Variable.outputs ⟨resultName node.id, result⟩ }

end Fragment

end ShaderNodes
