import ShaderNodes.Command

/-!
# The command line

Reads the files that the arguments name, runs the command and shows its reports.
-/

namespace ShaderNodes

/-- Reads a file of the system. -/
def readPath (path : String) : IO (Except ReadError String) := do
  try
    let bytes ← IO.FS.readBinFile path
    match String.fromUTF8? bytes with
    | some text => return .ok text
    | none => return .error .notText
  catch
    | .noFileOrDirectory .. => return .error .notFound
    | .inappropriateType .. => return .error .isFolder
    | e => return .error (.other (toString e))

/-- Reads all files that a command names. -/
def readCommandFiles (args : List String) : IO ReadFile := do
  match Command.parse args with
  | .error _ => return fun _ => .error .notFound
  | .ok c =>
    let files ← c.paths.mapM fun path => do return (path, ← readPath path)
    return fun path => (files.lookup path).getD (.error .notFound)

end ShaderNodes

open ShaderNodes in
/-- Compiles the graph of a file and prints its programs. -/
def main (args : List String) : IO UInt32 := do
  let read ← readCommandFiles args
  let run := Run.ofArguments read args
  IO.print run.programText
  IO.eprint (run.sideText Json.Failure.message (some .info))
  return UInt32.ofNat run.status
