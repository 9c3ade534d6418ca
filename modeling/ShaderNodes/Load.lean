import ShaderNodes.Catalogue.Basic
import ShaderNodes.Envelope
import ShaderNodes.Folder
import ShaderNodes.Graph.Codec

/-!
# Loading and saving

Catalogues, envelopes and graphs from texts and files. Everything that can go wrong is a
`LoadError`, which is told as a chain from the outermost context to the cause.
-/

namespace ShaderNodes

open Json

/-- What a file holds. -/
inductive FileKind
  | catalogue
  | envelope
  | graph
deriving DecidableEq, Repr

namespace FileKind

/-- The kind in words. -/
def noun : FileKind → String
  | catalogue => "node catalogue"
  | envelope => "program config"
  | graph => "graph model"

/-- What is said of a text of this kind that is refused. -/
def refusal : FileKind → String
  | catalogue => "invalid node catalogue json"
  | envelope => "failed to parse program config json"
  | graph => "invalid graph model json"

end FileKind

/-- Why something cannot be loaded. -/
inductive LoadError
  | refused (kind : FileKind) (failure : Failure)
  | invalidCatalogue (problems : List Catalogue.Problem)
  | unreadable (kind : FileKind) (path : String) (error : ReadError)
  | inFile (path : String) (error : LoadError)
deriving DecidableEq

/-- The error from the outermost context to its cause; `describe` words the refusal of a text. -/
def LoadError.chain (describe : Failure → String) : LoadError → List String
  | refused kind failure => [kind.refusal, describe failure]
  | invalidCatalogue ps => [Catalogue.problemsMessage ps]
  | unreadable kind path error =>
    ["failed to read " ++ kind.noun ++ " at " ++ path, error.message]
  | inFile path error => ("in " ++ path) :: error.chain describe

/-- The loading of something: it may fail, and it may report events. -/
abbrev Loading (α : Type) := ExceptT LoadError Logged α

/-- Loads a text by a codec. -/
def loadText {α : Type} (kind : FileKind) (c : Codec α) (text : String) : Loading α :=
  (c.parse text).adapt (.refused kind)

/-- Loads a file. -/
def loadFile {α : Type} (kind : FileKind) (load : String → Loading α) (read : ReadFile)
    (path : String) : Loading α :=
  match read path with
  | .ok text => (load text).adapt (.inFile path)
  | .error e => throw (.unreadable kind path e)

namespace Catalogue

/-- Catalogues. -/
def codec : Codec Catalogue :=
  .record "CatalogueFile" (.cons "types" NodeType.codec.roster (some .empty) .nil)
    (fun (types, _) => types) (fun c => (c, ()))

/-- Refuses a catalogue with problems. -/
def check (c : Catalogue) : Except LoadError Unit :=
  if c.problems.isEmpty then .ok () else .error (.invalidCatalogue c.problems)

/-- Loads a catalogue from a text and checks it. -/
def load (text : String) : Loading Catalogue := do
  let c ← loadText .catalogue codec text
  ExceptT.mk (pure c.check)
  pure c

/-- Loads a catalogue from a file and checks it. -/
def loadFrom : ReadFile → String → Loading Catalogue := loadFile .catalogue load

end Catalogue

namespace Envelope

/-- Loads an envelope from a text. -/
def load : String → Loading Envelope := loadText .envelope codec

/-- Loads an envelope from a file. -/
def loadFrom : ReadFile → String → Loading Envelope := loadFile .envelope load

end Envelope

namespace Graph

/-- Loads a graph from a text. -/
def load : String → Loading Graph := loadText .graph codec

/-- Loads a graph from a file. -/
def loadFrom : ReadFile → String → Loading Graph := loadFile .graph load

/-- The text under which a graph is saved. -/
def save (g : Graph) : String := (codec.write g).pretty

end Graph

end ShaderNodes
