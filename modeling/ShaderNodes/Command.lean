import ShaderNodes.Canvas
import ShaderNodes.Catalogue.Bundled
import ShaderNodes.Text.Terminal

/-!
# Commands

A command names the graph to compile and, if wanted, one node of it, a catalogue to lay over the
bundled one and an envelope. Running it is a pure function of the files it reads: it yields reports
in order, and an outcome. Only a requested node that fails, or a command that cannot be carried out,
makes the status of a run differ from zero.
-/

namespace ShaderNodes

/-! ## Arguments -/

/-- What an argument is about. -/
inductive Flag
  | graph
  | node
  | catalogue
  | config
deriving DecidableEq, Repr

namespace Flag

/-- The written form. -/
def text : Flag → String
  | graph => "--graph"
  | node => "--node"
  | catalogue => "--catalogue"
  | config => "--config"

/-- Every flag. -/
def list : List Flag := [graph, node, catalogue, config]

/-- Reads a flag. -/
def ofText? (s : String) : Option Flag := list.find? fun f => f.text = s

end Flag

/-- Why a text is not the number of a node. -/
inductive NodeIdError
  | empty
  | invalidDigit
  | tooLarge
deriving DecidableEq, Repr

/-- The reason in words. -/
def NodeIdError.message : NodeIdError → String
  | empty => "cannot parse integer from empty string"
  | invalidDigit => "invalid digit found in string"
  | tooLarge => "number too large to fit in target type"

namespace NodeId

/-- Reads digits after a number `n` has been read. The first digit that is none, or that makes the
number too large, decides. -/
def parseDigits (n : Nat) : List Char → Except NodeIdError NodeId
  | [] => .ok ⟨UInt32.ofNat n⟩
  | c :: cs =>
    if !c.isDigit then .error .invalidDigit
    else if n * 10 + (c.toNat - '0'.toNat) < UInt32.size then
      parseDigits (n * 10 + (c.toNat - '0'.toNat)) cs
    else .error .tooLarge

/-- Reads the number of a node: digits, with a plus sign in front if wanted. -/
def parse (s : String) : Except NodeIdError NodeId :=
  match s.toList with
  | [] => .error .empty
  | ['+'] => .error .invalidDigit
  | '+' :: cs => parseDigits 0 cs
  | cs => parseDigits 0 cs

end NodeId

/-- Why arguments are refused. -/
inductive UsageError
  | unknownArgument (text : String)
  | missingValue (flag : Flag)
  | invalidNode (text : String) (reason : NodeIdError)
  | graphRequired
deriving DecidableEq, Repr

/-- The flags with their values. -/
def usage : String :=
  "supported: --graph <model.json>, --node <id>, --catalogue <types.json>, --config <config.json>"

/-- The reason in words. -/
def UsageError.message : UsageError → String
  | unknownArgument text => "unknown argument: " ++ text ++ " (" ++ usage ++ ")"
  | missingValue flag => "missing value for " ++ flag.text
  | invalidNode text reason =>
    "invalid node id '" ++ text ++ "' for --node: " ++ reason.message
  | graphRequired => "--graph <model.json> is required (" ++ usage ++ ")"

/-- What a run is asked to do. -/
structure Command where
  /-- The file of the graph. -/
  graph : Option String
  /-- The node to show; all are shown if there is none. -/
  node : Option NodeId
  /-- The file of a catalogue to lay over the bundled one. -/
  catalogue : Option String
  /-- The file of an envelope. -/
  config : Option String
deriving DecidableEq, Repr

namespace Command

/-- The command that asks for nothing. -/
def blank : Command := ⟨none, none, none, none⟩

/-- The command with the value of one flag. -/
def set (c : Command) (flag : Flag) (value : String) : Except UsageError Command :=
  match flag with
  | .graph => .ok { c with graph := some value }
  | .node =>
    match NodeId.parse value with
    | .ok id => .ok { c with node := some id }
    | .error reason => .error (.invalidNode value reason)
  | .catalogue => .ok { c with catalogue := some value }
  | .config => .ok { c with config := some value }

/-- Reads arguments on top of a command. -/
def parseOnto (c : Command) : List String → Except UsageError Command
  | [] => .ok c
  | [arg] =>
    match Flag.ofText? arg with
    | some flag => .error (.missingValue flag)
    | none => .error (.unknownArgument arg)
  | arg :: value :: rest =>
    match Flag.ofText? arg with
    | none => .error (.unknownArgument arg)
    | some flag =>
      match c.set flag value with
      | .ok c => parseOnto c rest
      | .error e => .error e

/-- Reads arguments: pairs of a flag and its value, of which the last one of a flag counts. -/
def parse : List String → Except UsageError Command := parseOnto blank

/-- The files that a command names. -/
def paths (c : Command) : List String := [c.catalogue, c.config, c.graph].filterMap id

end Command

/-! ## Runs -/

/-- Why a command cannot be carried out. -/
inductive RunError
  | usage (error : UsageError)
  | load (error : LoadError)
  | nodeNotInGraph (node : NodeId) (path : String)
deriving DecidableEq

namespace RunError

/-- The error from the outermost context to its cause; `describe` words the refusal of a text. -/
def chain (describe : Json.Failure → String) : RunError → List String
  | usage error => [error.message]
  | load error => error.chain describe
  | nodeNotInGraph node path => ["node " ++ node.text ++ " is not part of " ++ path]

end RunError

/-- A text with `first` in front of its first line and `next` in front of the others. -/
def indented (first next text : String) : String :=
  first ++ ("\n" ++ next).intercalate (text.splitOn "\n")

/-- How the causes of an error are shown; they are numbered if there are several. -/
def causesText : List String → String
  | [] => ""
  | [cause] => "\nCaused by:\n" ++ indented "    " "    " cause ++ "\n"
  | causes =>
    let numbered := causes.zipIdx.map fun (cause, i) =>
      let number := natText i
      indented ("".pushn ' ' (5 - number.length) ++ number ++ ": ") "       " cause ++ "\n"
    "\nCaused by:\n" ++ String.join numbered

/-- How a chain of errors is shown: the outermost one, then its causes. -/
def chainText : List String → String
  | [] => ""
  | outermost :: causes => "Error: " ++ outermost ++ "\n" ++ causesText causes

/-- The lines of a text. A line break at its end does not begin another line. -/
def textLines (s : String) : List String :=
  let lines := s.splitOn "\n"
  if lines.getLast? = some "" then lines.dropLast else lines

/-- Something that a run shows. -/
inductive Report
  /-- An event, for the log. -/
  | event (e : Event)
  /-- The program of a node. -/
  | program (node : NodeId) (p : Program)
  /-- An error of the graph. -/
  | diagnostic (d : Diagnostic)

/-- A finished run: everything shown on the way, and whether what was asked for succeeded. -/
structure Run where
  reports : List Report
  outcome : Except RunError Bool

namespace Command

/-- Compiles the graph of a file, with the previews to show. -/
def previews (read : ReadFile) (c : Command) : ExceptT RunError Logged Previews := do
  let some path := c.graph | throw (.usage .graphRequired)
  let types ← match c.catalogue with
    | none => pure Catalogue.bundled
    | some path => do
      let user ← (Catalogue.loadFrom read path).adapt .load
      ExceptT.lift (Logged.emit (.cataloguesMerged user.size path))
      pure (Catalogue.bundled.merge user)
  let env ← match c.config with
    | none => pure Envelope.customary
    | some path => (Envelope.loadFrom read path).adapt .load
  let graph ← (Graph.loadFrom read path).adapt .load
  let loaded := (Canvas.new types).load graph
  ExceptT.lift (⟨loaded.events, ()⟩ : Logged Unit)
  let previews ← ExceptT.lift (loaded.canvas.compile env)
  ExceptT.lift (Logged.emit (.graphCompiled previews.length path))
  match c.node with
  | none => pure previews
  | some id =>
    match previews.find? fun p => p.1 = id with
    | some preview => pure [preview]
    | none => throw (.nodeNotInGraph id path)

/-- What is shown of a preview. -/
def previewReports : NodeId × Preview → List Report
  | (id, .ok p) => [.program id p]
  | (id, .error ds) => .event (.previewFailed id ds.length) :: ds.map .diagnostic

/-- Carries out a command. -/
def run (read : ReadFile) (c : Command) : Run :=
  let logged := (c.previews read).run
  let events := logged.events.map .event
  match logged.value with
  | .error e => ⟨events, .error e⟩
  | .ok previews =>
    ⟨events ++ previews.flatMap previewReports,
      .ok (c.node.isNone || previews.all fun p => p.2.succeeds)⟩

end Command

namespace Run

/-- A run on arguments. -/
def ofArguments (read : ReadFile) (args : List String) : Run :=
  match Command.parse args with
  | .error e => ⟨[], .error (.usage e)⟩
  | .ok c => c.run read

/-- The programs, each under a line that names its node. -/
def programText (r : Run) : String :=
  String.join (r.reports.map fun
    | .program node p => "// node " ++ node.text ++ "\n" ++ p.printed
    | _ => "")

/-- An event as it is written to the log: further lines of its message are indented, and terminal
controls are left out. A sequence that is still open at the end takes the line break with it. -/
def eventText (e : Event) : String :=
  let level := e.severity.text
  let head := "[" ++ level ++ "".pushn ' ' (5 - level.length) ++ " " ++ e.origin ++ "] "
  withoutControls (indented head "    " e.message ++ "\n")

/-- The text beside the programs. Events less severe than `limit` are left out, all of them if there
is no limit; `describe` words the refusal of a text. -/
def sideText (describe : Json.Failure → String) (limit : Option Severity) (r : Run) : String :=
  let shown := String.join (r.reports.map fun
    | .event e => if limit.any fun l => e.severity.rank ≤ l.rank then eventText e else ""
    | .program .. => ""
    | .diagnostic d => "  " ++ d.text ++ "\n")
  match r.outcome with
  | .ok _ => shown
  | .error e => shown ++ chainText (e.chain describe)

/-- The exit status. -/
def status (r : Run) : Nat :=
  match r.outcome with
  | .ok true => 0
  | _ => 1

end Run

end ShaderNodes
