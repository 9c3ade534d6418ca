import ShaderNodes.Json.Codec

/-!
# The envelope of a program

The fixed text around the statements of every program. Each part has a customary value and can be
replaced on its own.
-/

namespace ShaderNodes

/-- The fixed text of a program. -/
structure Envelope where
  /-- The first line. -/
  version : String
  /-- The second line. -/
  precision : String
  /-- The line that opens the body; a brace of its own closes it. -/
  entryPoint : String
  /-- What stands in front of each statement of the body. -/
  indent : String
  /-- The variable that takes the final color. -/
  sink : String
deriving DecidableEq, Repr

namespace Envelope

/-- The customary envelope. -/
def customary : Envelope where
  version := "#version 100"
  precision := "precision mediump float;"
  entryPoint := "void main( void ) \x7b"
  indent := "  "
  sink := "gl_FragColor"

/-- Envelopes; missing parts are customary. -/
def codec : Codec Envelope :=
  .record "ProgramConfig"
    (.cons "version" .text (some customary.version) <|
      .cons "precision" .text (some customary.precision) <|
      .cons "entryPoint" .text (some customary.entryPoint) <|
      .cons "indent" .text (some customary.indent) <|
      .cons "sink" .text (some customary.sink) .nil)
    (fun (version, precision, entryPoint, indent, sink, _) =>
      ⟨version, precision, entryPoint, indent, sink⟩)
    (fun e => (e.version, e.precision, e.entryPoint, e.indent, e.sink, ()))

end Envelope

end ShaderNodes
