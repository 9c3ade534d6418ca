import ShaderNodes.Graph.Node
import ShaderNodes.Json.Codec

/-!
# Documents of node types and graphs

How values, node types, nodes and joints are written as JSON. A value is an object with a tag and a
content. The tag decides how the content is read, so a content that comes first is set aside until
the tag is known.
-/

namespace ShaderNodes

open Json Json.Reading

/-! ## Values -/

namespace ValueType

/-- Types by name. -/
def codec : Codec ValueType := .choice (list.map fun t => (t.text, t)) text

/-- The tag of values of this type. -/
def tag : ValueType → String
  | scalar => "scalar"
  | color => "color"

/-- The types by the tags of their values. -/
def tags : List (String × ValueType) := list.map fun t => (t.tag, t)

/-- Types by tag. -/
def tagCodec : Codec ValueType := .choice tags tag

end ValueType

/-- Outputs by name. -/
def Output.codec : Codec Output := .choice (list.map fun o => (o.text, o)) text

namespace Color

/-- How a color is asked for. -/
def wanted : String := "an array of length 4"

/-- Reads one channel, `n` of which have been read, and gives the elements left. -/
def readChannel (n : Nat) : Items → Reading (Single × Items)
  | .cons j tail => do
    let x ← Codec.single.read j
    pure (x, tail)
  | .nil e => do
    verdict e.close
    refuse (.wrongLength n wanted)

/-- Reads four channels, and gives the elements left. -/
def readChannels (items : Items) : Reading (Color × Items) := do
  let (r, items) ← readChannel 0 items
  let (g, items) ← readChannel 1 items
  let (b, items) ← readChannel 2 items
  let (a, items) ← readChannel 3 items
  pure (⟨r, g, b, a⟩, items)

/-- Reads a color in its place: nothing may follow the four channels. -/
def read : Json → Reading Color
  | .array items => do
    match ← readChannels items with
    | (c, .nil e) => do
      verdict e.last
      pure c
    | (_, .cons ..) => throw .malformed
  | j => wrongKind j wanted

/-- How many elements there are. -/
def itemCount : Items → Nat
  | .nil _ => 0
  | .cons _ tail => itemCount tail + 1

/-- Reads a color that was set aside: elements behind the four channels are counted. -/
def readHeld : Json → Reading Color
  | .array items => do
    let (c, left) ← readChannels items
    if itemCount left = 0 then pure c
    else refuse (.wrongLength (4 + itemCount left) "4 elements in sequence")
  | j => wrongKind j wanted

end Color

namespace Value

/-- How a value is asked for. -/
def wanted : String := "adjacently tagged enum DataValue"

/-- Reads a content in its place. -/
def readContent (type : ValueType) (j : Json) : Reading Value :=
  match type with
  | .scalar => Value.scalar <$> Codec.single.read j
  | .color => Value.color <$> Color.read j

/-- Reads a content that was set aside. -/
def readHeld (type : ValueType) (j : Json) : Reading Value :=
  match type with
  | .scalar => Value.scalar <$> Codec.single.read j
  | .color => Value.color <$> Color.readHeld j

/-- What is known of a value while its members are read. -/
inductive Progress
  | nothing
  | tagged (type : ValueType)
  | held (content : Json)
  | done (v : Value)

/-- Reads the tag of a value. -/
def Progress.tag (j : Json) : Progress → Reading Progress
  | .nothing => do
    let type ← ValueType.tagCodec.read j
    pure (.tagged type)
  | .held content => do
    let type ← ValueType.tagCodec.read j
    let v ← readHeld type content
    pure (.done v)
  | .tagged _ | .done _ => refuse (.duplicateField "type")

/-- Reads the content of a value, or sets it aside if there is room for it. -/
def Progress.content (room : Nat) (j : Json) : Progress → Reading Progress
  | .nothing => do
    verdict (j.settle room)
    pure (.held j)
  | .tagged type => do
    let v ← readContent type j
    pure (.done v)
  | .held _ | .done _ => refuse (.duplicateField "value")

/-- The value once all members have been read. -/
def Progress.finish : Progress → Reading Value
  | .nothing | .held _ => refuse (.missingField "type")
  | .tagged _ => refuse (.missingField "value")
  | .done v => pure v

/-- Reads the members of a value. -/
def readMembers (room : Nat) (p : Progress) : Members → Reading Value
  | .nil e => do
    verdict e.close
    p.finish
  | .cons q j tail => do
    let name ← verdict q.text
    if name = "type" then
      let p ← p.tag j
      readMembers room p tail
    else if name = "value" then
      let p ← p.content room j
      readMembers room p tail
    else
      verdict j.pass
      readMembers room p tail

/-- Reads a tag that is given as an element. -/
def readTagItem : Json → Reading ValueType
  | .scalar (.string q) => do Codec.chosen ValueType.tags (← verdict q.text)
  | j => wrongKind j "variant identifier"

/-- Reads a value that is given as an array of tag and content. -/
def readItems : Items → Reading Value
  | .nil e => do
    verdict e.close
    refuse (.wrongLength 0 wanted)
  | .cons tag (.nil e) => do
    let _ ← readTagItem tag
    verdict e.close
    refuse (.wrongLength 1 wanted)
  | .cons tag (.cons content tail) => do
    let type ← readTagItem tag
    let v ← readContent type content
    match tail with
    | .nil e => do
      verdict e.last
      pure v
    | .cons .. => throw .malformed

/-- How many arrays and objects may be open at a time. -/
def depthMax : Nat := 127

/-- Values inside `enclosing` open arrays and objects. -/
def codec (enclosing : Nat) : Codec Value where
  read
    | .object members => readMembers (depthMax - 1 - enclosing) .nothing members
    | .array items => readItems items
    | j => wrongKind j wanted
  write v := .object (.ofList [
    ("type", .string v.type.tag),
    ("value", match v with
      | .scalar x => Codec.single.write x
      | .color c => .array (.ofList (c.channels.map Codec.single.write)))])

end Value

/-! ## Node types -/

/-- Type names as text. -/
def TypeId.codec : Codec TypeId where
  read j := do
    let s ← Codec.text.read j
    lift (TypeId.ofText s)
  write t := .string t.text

/-- Parameters. -/
def Param.codec : Codec Param :=
  .record "ParamType" (.cons "id" .text none (.cons "type" ValueType.codec none .nil))
    (fun (name, type, _) => ⟨name, type⟩) (fun p => (p.name, p.type, ()))

/-- Overloads. -/
def Overload.codec : Codec Overload :=
  .record "Overload"
    (.cons "signature" ValueType.codec.sequence none (.cons "code" Codec.text.sequence none .nil))
    (fun (signature, code, _) => ⟨signature, code⟩) (fun o => (o.signature, o.code, ()))

/-- Node types. -/
def NodeType.codec : Codec NodeType :=
  .record "NodeType"
    (.cons "id" TypeId.codec none <|
      .cons "hidden" .bool (some false) <|
      .cons "params" Param.codec.roster (some .empty) <|
      .cons "inputs" Codec.text.set (some .empty) <|
      .cons "outputs" Output.codec.set (some .empty) <|
      .cons "globals" Codec.text.set (some .empty) <|
      .cons "code" Overload.codec.sequence (some []) .nil)
    (fun (id, hidden, params, inputs, outputs, globals, code, _) =>
      ⟨id, hidden, params, inputs, outputs, globals, code⟩)
    (fun t => (t.id, t.hidden, t.params, t.inputs, t.outputs, t.globals, t.code, ()))

/-! ## Graphs -/

/-- Node numbers. -/
def NodeId.codec : Codec NodeId := Codec.word.map NodeId.mk NodeId.val

/-- Places. -/
def Point.codec : Codec Point :=
  .record "Point" (.cons "x" .double none (.cons "y" .double none .nil))
    (fun (x, y, _) => ⟨x, y⟩) (fun p => (p.x, p.y, ()))

/-- Bound parameters of a node, which stands in the array of nodes of a graph. -/
def Binding.rosterCodec : Codec (Roster Binding) :=
  .namedRoster (Value.codec 4) Binding.mk Binding.param Binding.value

/-- Nodes. -/
def Node.codec : Codec Node :=
  .record "Node"
    (.cons "id" NodeId.codec none <|
      .cons "type" TypeId.codec none <|
      .cons "offset" Point.codec (some .origin) <|
      .cons "params" Binding.rosterCodec (some .empty) .nil)
    (fun (id, type, offset, params, _) => ⟨id, type, offset, params⟩)
    (fun n => (n.id, n.type, n.offset, n.params, ()))

/-- Joints. -/
def Joint.codec : Codec Joint :=
  .record "JointRecord"
    (.cons "sourceNode" NodeId.codec none <|
      .cons "sourceOutput" Output.codec none <|
      .cons "destNode" NodeId.codec none <|
      .cons "destInput" .text none .nil)
    (fun (source, output, dest, input, _) => ⟨⟨dest, input⟩, ⟨source, output⟩⟩)
    (fun j => (j.source.node, j.source.output, j.dest.node, j.dest.input, ()))

/-- Graphs. -/
def Graph.codec : Codec Graph :=
  .record "PersistedModel"
    (.cons "nodes" Node.codec.roster (some .empty) <|
      .cons "joints" Joint.codec.roster (some .empty) .nil)
    (fun (nodes, joints, _) => ⟨nodes, joints⟩) (fun g => (g.nodes, g.joints, ()))

end ShaderNodes
