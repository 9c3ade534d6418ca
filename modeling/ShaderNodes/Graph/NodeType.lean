import ShaderNodes.Event

/-!
# Node types

A node type declares parameters, inputs, outputs and global declarations, and has code for one or
more lists of input types. An overload is one such piece of code with its signature: the types of
the inputs in declared order, followed by the type of the result.
-/

namespace ShaderNodes

/-- Reads a type name, taking text that is none for the unknown type. -/
def TypeId.ofText (s : String) : Logged TypeId :=
  match TypeId.parse? s with
  | some t => pure t
  | none => do
    Logged.emit (.malformedTypeId s)
    pure .unknown

/-- A declared parameter. -/
structure Param where
  /-- The name of the parameter. -/
  name : String
  /-- The type of its values. -/
  type : ValueType
deriving DecidableEq, Repr

instance : Keyed Param String := ⟨Param.name⟩

instance : Alike Param := ⟨fun a b => decide (a = b)⟩

/-- Code for one list of input types. -/
structure Overload where
  /-- The types of the inputs, then the type of the result. -/
  signature : List ValueType
  /-- The lines of the code, with placeholders. -/
  code : List String
deriving DecidableEq, Repr

namespace Overload

/-- The types of the inputs. -/
def inputs (o : Overload) : List ValueType := o.signature.dropLast

/-- The type of the result; an empty signature has none. -/
def result? (o : Overload) : Option ValueType := o.signature.getLast?

end Overload

/-- A node type. -/
structure NodeType where
  /-- The name of the type. -/
  id : TypeId
  /-- Whether a catalogue browser leaves the type out. -/
  hidden : Bool
  /-- The declared parameters. -/
  params : Roster Param
  /-- The names of the inputs. -/
  inputs : Roster String
  /-- The outputs that nodes of the type offer. -/
  outputs : Roster Output
  /-- Declarations that the code relies on. -/
  globals : Roster String
  /-- The overloads in the order in which they are tried. -/
  code : List Overload
deriving DecidableEq

instance : Keyed NodeType TypeId := ⟨NodeType.id⟩

namespace NodeType

/-- A type that declares nothing. -/
def new (id : TypeId) : NodeType := ⟨id, false, .empty, .empty, .empty, .empty, []⟩

/-- The type, left out by catalogue browsers. -/
def hide (t : NodeType) : NodeType := { t with hidden := true }

/-- The type with one more parameter. -/
def withParam (t : NodeType) (name : String) (type : ValueType) : NodeType :=
  { t with params := t.params.put ⟨name, type⟩ }

/-- The type with one more input. -/
def withInput (t : NodeType) (name : String) : NodeType := { t with inputs := t.inputs.put name }

/-- The type with one more output. -/
def withOutput (t : NodeType) (o : Output) : NodeType := { t with outputs := t.outputs.put o }

/-- The type with one more global declaration. -/
def withGlobal (t : NodeType) (line : String) : NodeType :=
  { t with globals := t.globals.put line }

/-- The type with one more overload. -/
def withOverload (t : NodeType) (o : Overload) : NodeType := { t with code := t.code ++ [o] }

instance : Alike NodeType where
  alike s t := alike s.id t.id && s.hidden == t.hidden && alike s.params t.params
    && alike s.inputs t.inputs && alike s.outputs t.outputs && alike s.globals t.globals
    && decide (s.code = t.code)

/-- The first overload whose inputs have exactly the given types, with the type of its result. -/
def overload? (t : NodeType) (types : List ValueType) : Option (Overload × ValueType) :=
  t.code.findSome? fun o =>
    match o.result? with
    | some result => if o.inputs = types then some (o, result) else none
    | none => none

end NodeType

end ShaderNodes
