import ShaderNodes.Number.Numeral

/-!
# Names of nodes and of node types

A node is named by a 32-bit number, a node type by a category and a name, written
`category/name`. Text that is not of that form stands for the unknown type.
-/

namespace ShaderNodes

/-- The number of a node. -/
structure NodeId where
  /-- The number itself. -/
  val : UInt32
deriving DecidableEq, Repr

namespace NodeId

/-- The number as text. -/
def text (n : NodeId) : String := natText n.val.toNat

/-- What every name declared by the code of the node starts with. -/
def stem (n : NodeId) : String := "node" ++ n.text

instance : LE NodeId := ⟨fun a b => a.val ≤ b.val⟩

instance (a b : NodeId) : Decidable (a ≤ b) := inferInstanceAs (Decidable (a.val ≤ b.val))

end NodeId

/-- The name of a node type. -/
structure TypeId where
  /-- The group in which the type is listed. -/
  category : String
  /-- The name within the group. -/
  name : String
deriving DecidableEq, Repr

namespace TypeId

/-- The written form. -/
def text (t : TypeId) : String := t.category ++ "/" ++ t.name

/-- Stands for types whose name cannot be read. -/
def unknown : TypeId := ⟨"<Unknown>", "<Unknown>"⟩

/-- Whether this is the unknown type. -/
def isUnknown (t : TypeId) : Bool := t = unknown

/-- Reads a written name: exactly one slash, with text on both sides. -/
def parse? (s : String) : Option TypeId :=
  let cs := s.toList
  let category := cs.takeWhile (· ≠ '/')
  match cs.dropWhile (· ≠ '/') with
  | [] => none
  | _ :: name =>
    if category.isEmpty || name.isEmpty || name.contains '/' then none
    else some ⟨String.ofList category, String.ofList name⟩

/-- Types are listed by category, then by name. -/
def le (a b : TypeId) : Bool :=
  a.category < b.category || (a.category = b.category && a.name ≤ b.name)

instance : Alike TypeId := ⟨fun a b => decide (a = b)⟩

end TypeId

end ShaderNodes
