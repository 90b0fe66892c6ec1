import ScriptSandbox.Main
import ScriptSandbox.Proofs.Analysis.CallChains
import ScriptSandbox.Proofs.Analysis.CallPatterns
import ScriptSandbox.Proofs.Analysis.CallPlaces
import ScriptSandbox.Proofs.Analysis.Coherence
import ScriptSandbox.Proofs.Analysis.FieldDepths
import ScriptSandbox.Proofs.Analysis.FieldNames
import ScriptSandbox.Proofs.Analysis.Fields
import ScriptSandbox.Proofs.Analysis.ImportItems
import ScriptSandbox.Proofs.Analysis.ImportPlaces
import ScriptSandbox.Proofs.Analysis.IssuePlaces
import ScriptSandbox.Proofs.Analysis.Joining
import ScriptSandbox.Proofs.Analysis.Mentions
import ScriptSandbox.Proofs.Analysis.NestingDepth
import ScriptSandbox.Proofs.Analysis.Respelling
import ScriptSandbox.Proofs.Analysis.Safety
import ScriptSandbox.Proofs.Analysis.Tightening
import ScriptSandbox.Proofs.Analysis.Verdict
import ScriptSandbox.Proofs.Capture.Bounds
import ScriptSandbox.Proofs.Capture.Frames
import ScriptSandbox.Proofs.Capture.Reception
import ScriptSandbox.Proofs.Capture.Streams
import ScriptSandbox.Proofs.Capture.Writes
import ScriptSandbox.Proofs.Capture.Writing
import ScriptSandbox.Proofs.Child.Messages
import ScriptSandbox.Proofs.Isolation.Attribution
import ScriptSandbox.Proofs.Isolation.ErrorStream
import ScriptSandbox.Proofs.Isolation.Interchange
import ScriptSandbox.Proofs.Isolation.Limits
import ScriptSandbox.Proofs.Isolation.MessageOrder
import ScriptSandbox.Proofs.Isolation.ProcessorLimit
import ScriptSandbox.Proofs.Isolation.Schedules
import ScriptSandbox.Proofs.Json.Records
import ScriptSandbox.Proofs.Json.Values
import ScriptSandbox.Proofs.Policy.Agreement
import ScriptSandbox.Proofs.Request.FrontEnds
import ScriptSandbox.Proofs.Sandbox.Answers
import ScriptSandbox.Proofs.Sandbox.FailureKinds
import ScriptSandbox.Proofs.Sandbox.FinalStates
import ScriptSandbox.Proofs.Sandbox.Paths
import ScriptSandbox.Proofs.Sandbox.ProcessorTime
import ScriptSandbox.Proofs.Sandbox.Steps
import ScriptSandbox.Proofs.Scope.Identifiers
import ScriptSandbox.Proofs.Scope.Leftovers
import ScriptSandbox.Proofs.Scope.Protection
import ScriptSandbox.Proofs.Source.BlockDepths
import ScriptSandbox.Proofs.Source.Borders
import ScriptSandbox.Proofs.Source.Brackets
import ScriptSandbox.Proofs.Source.Closings
import ScriptSandbox.Proofs.Source.EmptyLines
import ScriptSandbox.Proofs.Source.ErrorPlaces
import ScriptSandbox.Proofs.Source.Extents
import ScriptSandbox.Proofs.Source.FieldText
import ScriptSandbox.Proofs.Source.FormattedStrings
import ScriptSandbox.Proofs.Source.HeaderEnds
import ScriptSandbox.Proofs.Source.Headers
import ScriptSandbox.Proofs.Source.Imports
import ScriptSandbox.Proofs.Source.Indentation
import ScriptSandbox.Proofs.Source.Joining
import ScriptSandbox.Proofs.Source.LayoutRuns
import ScriptSandbox.Proofs.Source.LineEndLexemes
import ScriptSandbox.Proofs.Source.LineEndScripts
import ScriptSandbox.Proofs.Source.LineEnds
import ScriptSandbox.Proofs.Source.Lines
import ScriptSandbox.Proofs.Source.Literals
import ScriptSandbox.Proofs.Source.Lossless
import ScriptSandbox.Proofs.Source.Moving
import ScriptSandbox.Proofs.Source.Parsing
import ScriptSandbox.Proofs.Source.PlacedLayouts
import ScriptSandbox.Proofs.Source.Placing
import ScriptSandbox.Proofs.Source.Quotes
import ScriptSandbox.Proofs.Source.Replacing
import ScriptSandbox.Proofs.Source.Resuming
import ScriptSandbox.Proofs.Source.Seams
import ScriptSandbox.Proofs.Source.StatementOrder
import ScriptSandbox.Proofs.Source.StatementStarts
import ScriptSandbox.Proofs.Source.StringBodies
import ScriptSandbox.Proofs.Source.TokenPlaces
import ScriptSandbox.Proofs.Text.Decoding
import ScriptSandbox.Proofs.Text.Encoding
import ScriptSandbox.Proofs.Text.Lowercase
