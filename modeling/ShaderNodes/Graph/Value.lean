import ShaderNodes.Number.Numeral

/-!
# Values

What flows between nodes: scalars and colors. A node exposes its result as a whole and, for colors,
channel by channel. Parameter values become literal expressions of the shading language.
-/

namespace ShaderNodes

/-- What a node exposes: its whole result or one channel of a color. -/
inductive Output
  | all
  | red
  | green
  | blue
  | alpha
deriving DecidableEq, Repr

namespace Output

/-- The name of an output. -/
def text : Output → String
  | all => "All"
  | red => "Red"
  | green => "Green"
  | blue => "Blue"
  | alpha => "Alpha"

/-- Every output. -/
def list : List Output := [all, red, green, blue, alpha]

/-- An output is its own key, so a roster of outputs is an ordered set. -/
instance : Keyed Output Output := ⟨id⟩

instance : Alike Output := ⟨fun a b => decide (a = b)⟩

end Output

/-- The type of a value. -/
inductive ValueType
  | scalar
  | color
deriving DecidableEq, Repr

namespace ValueType

/-- The name of a type. -/
def text : ValueType → String
  | scalar => "Scalar"
  | color => "Color"

/-- Every type. -/
def list : List ValueType := [scalar, color]

/-- The outputs of a node whose result has this type. -/
def outputs : ValueType → List Output
  | scalar => [.all]
  | color => [.all, .red, .green, .blue, .alpha]

end ValueType

/-- A color with its transparency. -/
structure Color where
  r : Single
  g : Single
  b : Single
  a : Single
deriving DecidableEq

/-- A value bound to a parameter. -/
inductive Value
  | scalar (x : Single)
  | color (c : Color)
deriving DecidableEq

/-- Numerals of the shading language: plain from a ten-thousandth to below ten quadrillion, no sign
on positive exponents. -/
def literalStyle : NumeralStyle := ⟨-4, 15, .bare, .upward⟩

/-- A number as a floating-point literal. What is not finite becomes zero. -/
def literal (x : Single) : String :=
  if x.isFinite then (literalStyle.numeral x).text else "0.0"

namespace Color

/-- The four numbers in order. -/
def channels (c : Color) : List Single := [c.r, c.g, c.b, c.a]

instance : Alike Color where
  alike c d := alike c.r d.r && alike c.g d.g && alike c.b d.b && alike c.a d.a

end Color

namespace Value

/-- The type of a value. -/
def type : Value → ValueType
  | scalar _ => .scalar
  | color _ => .color

/-- The literal expression of a value. -/
def code : Value → String
  | scalar x => "float(" ++ literal x ++ ")"
  | color c => "vec4(" ++ ", ".intercalate (c.channels.map literal) ++ ")"

/-- The value that a new node binds to a parameter of type `t`. -/
def default : ValueType → Value
  | .scalar => .scalar .zero
  | .color => .color ⟨.zero, .zero, .zero, .zero⟩

instance : Alike Value where
  alike
    | scalar x, scalar y => alike x y
    | color c, color d => alike c d
    | _, _ => false

end Value

end ShaderNodes
