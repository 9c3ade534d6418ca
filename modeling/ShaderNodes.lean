import ShaderNodes.Canvas
import ShaderNodes.Catalogue.Basic
import ShaderNodes.Catalogue.Bundled
import ShaderNodes.Checked
import ShaderNodes.Command
import ShaderNodes.Emit.Fragment
import ShaderNodes.Emit.Program
import ShaderNodes.Emit.Template
import ShaderNodes.Emit.Walk
import ShaderNodes.Envelope
import ShaderNodes.Event
import ShaderNodes.Folder
import ShaderNodes.Graph.Codec
import ShaderNodes.Graph.Id
import ShaderNodes.Graph.Node
import ShaderNodes.Graph.NodeType
import ShaderNodes.Graph.Value
import ShaderNodes.Json.Basic
import ShaderNodes.Json.Codec
import ShaderNodes.Json.Failure
import ShaderNodes.Json.Render
import ShaderNodes.Json.Scan
import ShaderNodes.Load
import ShaderNodes.Main
import ShaderNodes.Number.Binary
import ShaderNodes.Number.Decimal
import ShaderNodes.Number.Number
import ShaderNodes.Number.Numeral
import ShaderNodes.Proofs.Accumulation
import ShaderNodes.Proofs.Arena
import ShaderNodes.Proofs.Arguments
import ShaderNodes.Proofs.Calls
import ShaderNodes.Proofs.Catalogues
import ShaderNodes.Proofs.CycleReports
import ShaderNodes.Proofs.Cycles
import ShaderNodes.Proofs.Defences
import ShaderNodes.Proofs.Deletion
import ShaderNodes.Proofs.Diagnostics
import ShaderNodes.Proofs.Documents
import ShaderNodes.Proofs.Echoes
import ShaderNodes.Proofs.Edits
import ShaderNodes.Proofs.FewestDigits
import ShaderNodes.Proofs.FragmentOrder
import ShaderNodes.Proofs.Fragments
import ShaderNodes.Proofs.FreshNodes
import ShaderNodes.Proofs.Histories
import ShaderNodes.Proofs.Joints
import ShaderNodes.Proofs.Lexemes
import ShaderNodes.Proofs.Literals
import ShaderNodes.Proofs.LongestMatch
import ShaderNodes.Proofs.Messages
import ShaderNodes.Proofs.Names
import ShaderNodes.Proofs.NearestNumbers
import ShaderNodes.Proofs.NodeReports
import ShaderNodes.Proofs.Numerals
import ShaderNodes.Proofs.Outcomes
import ShaderNodes.Proofs.Overlays
import ShaderNodes.Proofs.Overloads
import ShaderNodes.Proofs.Places
import ShaderNodes.Proofs.Previews
import ShaderNodes.Proofs.Readings
import ShaderNodes.Proofs.RecursiveVisit
import ShaderNodes.Proofs.Reopening
import ShaderNodes.Proofs.Roster
import ShaderNodes.Proofs.RosterHistories
import ShaderNodes.Proofs.Rounding
import ShaderNodes.Proofs.Saving
import ShaderNodes.Proofs.Scanning
import ShaderNodes.Proofs.Scoping
import ShaderNodes.Proofs.ShortestDecimals
import ShaderNodes.Proofs.Substitution
import ShaderNodes.Proofs.Termination
import ShaderNodes.Proofs.Turns
import ShaderNodes.Proofs.TypeNames
import ShaderNodes.Proofs.Undo
import ShaderNodes.Proofs.Upstream
import ShaderNodes.Proofs.WalkInvariant
import ShaderNodes.Proofs.WalkSteps
import ShaderNodes.Proofs.WellWritten
import ShaderNodes.Proofs.WrittenNumbers
import ShaderNodes.Roster
import ShaderNodes.Text.Citation
import ShaderNodes.Text.Terminal
import ShaderNodes.Text.Unprinted
