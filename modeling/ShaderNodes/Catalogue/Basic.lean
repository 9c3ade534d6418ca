import ShaderNodes.Graph.NodeType

/-!
# Catalogues

A catalogue is a roster of node types. One catalogue can be laid over another, and a catalogue can
be checked: types have proper names, signatures fit the declared inputs, no two overloads of a type
take the same inputs, and every overload provides the declared outputs.
-/

namespace ShaderNodes

/-- The node types known to a program. -/
abbrev Catalogue := Roster NodeType

namespace Catalogue

/-- Lays `overlay` over `base`: types under a name that is taken replace the old ones, new
names come last. -/
def merge (base overlay : Catalogue) : Catalogue := base.putAll overlay.entries

/-- The types that a catalogue browser offers. -/
def visible (c : Catalogue) : List NodeType := c.entries.filter fun t => !t.hidden

/-- What can be wrong with a type. Overloads are counted from zero. -/
inductive Problem
  /-- The type has the name of the unknown type. -/
  | reservedId
  /-- The signature of an overload does not fit the inputs. -/
  | arity (type : TypeId) (overload : Nat) (found expected : Nat)
  /-- A declared output is not provided by an overload. -/
  | outputNotProvided (type : TypeId) (output : Output) (overload : Nat) (result : ValueType)
  /-- An overload takes the same inputs as one before it. -/
  | repeatedInputs (type : TypeId) (overload : Nat) (inputs : List ValueType)
deriving DecidableEq, Repr

/-- A problem in words. -/
def Problem.message : Problem → String
  | reservedId => "node type uses the reserved id '" ++ TypeId.unknown.text ++ "'"
  | arity type i found expected =>
    "overload #" ++ natText i ++ " of '" ++ type.text ++ "' has " ++ natText found
      ++ " type(s) in its signature, expected " ++ natText expected
  | outputNotProvided type output i result =>
    "'" ++ type.text ++ "' declares output " ++ output.text ++ " but overload #" ++ natText i
      ++ " yields " ++ result.text
  | repeatedInputs type i inputs =>
    "overload #" ++ natText i ++ " of '" ++ type.text ++ "' repeats input types ["
      ++ ", ".intercalate (inputs.map ValueType.text) ++ "]"

/-- Problems of the overloads of `t` from number `i` on. `seen` holds the inputs of the overloads
before them whose signatures fit. -/
def overloadProblems (t : NodeType) (i : Nat) (seen : List (List ValueType)) :
    List Overload → List Problem
  | [] => []
  | o :: rest =>
    let expected := t.inputs.size + 1
    if o.signature.length ≠ expected then
      .arity t.id i o.signature.length expected :: overloadProblems t (i + 1) seen rest
    else
      let missing :=
        match o.result? with
        | some result =>
          (t.outputs.entries.filter fun output => !result.outputs.contains output).map
            fun output => .outputNotProvided t.id output i result
        | none => []
      let repeated :=
        if seen.contains o.inputs then [.repeatedInputs t.id i o.inputs] else []
      missing ++ repeated ++ overloadProblems t (i + 1) (o.inputs :: seen) rest

/-- Problems of a type. -/
def typeProblems (t : NodeType) : List Problem :=
  (if t.id.isUnknown then [.reservedId] else []) ++ overloadProblems t 0 [] t.code

/-- Problems of a catalogue, type by type. -/
def problems (c : Catalogue) : List Problem := c.entries.flatMap typeProblems

/-- All problems in words. -/
def problemsMessage (ps : List Problem) : String :=
  "node catalogue failed validation (" ++ natText ps.length ++ " error(s)):\n- "
    ++ "\n- ".intercalate (ps.map Problem.message)

end Catalogue

end ShaderNodes
