import ShaderNodes.Catalogue.Basic

/-!
# The bundled catalogue

The node types that every program knows: constants, values that the host of a shader supplies,
arithmetic on scalars and colors, and the hidden type of the final result. Arithmetic on mixed
operands spreads the scalar over the channels of the color.
-/

namespace ShaderNodes.Catalogue

namespace Bundled

open ValueType

/-- A type that offers its whole result. -/
def offering (category name : String) : NodeType := (NodeType.new ⟨category, name⟩).withOutput .all

/-- The name of a value type in the shading language. -/
def typeName : ValueType → String
  | scalar => "float"
  | color => "vec4"

/-- An overload of a single line, which declares the result. -/
def defining (inputs : List ValueType) (result : ValueType) (expression : String) : Overload :=
  ⟨inputs ++ [result], [typeName result ++ " #node_result = " ++ expression ++ ";"]⟩

/-- A parameter as a node. -/
def constant (name : String) (type : ValueType) : NodeType :=
  (offering "Constant" name).withParam "Value" type
    |>.withOverload (defining [] type "#paramValue")

/-- A variable that the host of the shader supplies. -/
def supplied (name : String) (type : ValueType) (declaration expression : String) : NodeType :=
  (offering "Global" name).withGlobal declaration |>.withOverload (defining [] type expression)

/-- A type with two inputs. -/
def binary (name : String) (overloads : List Overload) : NodeType :=
  overloads.foldl NodeType.withOverload
    (((offering "Math" name).withInput "A").withInput "B")

/-- An operator between two operands of any type. -/
def arithmetic (name operator : String) : NodeType :=
  let expression := "#inputA " ++ operator ++ " #inputB"
  binary name
    [defining [scalar, scalar] scalar expression, defining [scalar, color] color expression,
      defining [color, scalar] color expression, defining [color, color] color expression]

/-- A function that takes a scalar as second argument next to a color, but not as first one. -/
def extremum (name function : String) : NodeType :=
  let expression := function ++ "(#inputA, #inputB)"
  binary name
    [defining [scalar, scalar] scalar expression, defining [color, scalar] color expression,
      defining [scalar, color] color (function ++ "(vec4(#inputA), #inputB)"),
      defining [color, color] color expression]

/-- A function of one argument. -/
def trigonometric (name function : String) : NodeType :=
  let expression := function ++ "(#inputX)"
  (offering "Trigonometry" name).withInput "X"
    |>.withOverload (defining [scalar] scalar expression)
    |>.withOverload (defining [color] color expression)

/-- Makes a color of four scalars. -/
def compose : NodeType :=
  ((((offering "Color" "Compose").withInput "R").withInput "G").withInput "B").withInput "A"
    |>.withOverload (defining [scalar, scalar, scalar, scalar] color
      "vec4(#inputR, #inputG, #inputB, #inputA)")

/-- The distance of two values. -/
def distance : NodeType :=
  let expression := "distance(#inputA, #inputB)"
  binary "Distance"
    [defining [scalar, scalar] scalar expression, defining [color, color] scalar expression]

/-- The final result; it offers nothing to other nodes. -/
def result : NodeType :=
  ((NodeType.new ⟨"Output", "Result"⟩).hide.withInput "Color")
    |>.withOverload (defining [scalar] scalar "#inputColor")
    |>.withOverload (defining [color] color "#inputColor")

end Bundled

open Bundled ValueType in
/-- The types that every program knows. -/
def bundled : Catalogue :=
  .ofList
    [constant "Scalar" scalar, constant "Color" color, compose,
      supplied "Time" scalar "uniform float time;" "time",
      supplied "Position" color "varying vec4 position;" "position",
      arithmetic "Add" "+", arithmetic "Subtract" "-", arithmetic "Multiply" "*",
      arithmetic "Divide" "/", extremum "Min" "min", extremum "Max" "max", distance,
      trigonometric "Sin" "sin", trigonometric "Cos" "cos", result]

end ShaderNodes.Catalogue
