import Statechart.Codegen.Module
import Statechart.CommandLine.Outcome
import Statechart.Engine.Host
import Statechart.Export.Graph
import Statechart.Export.GraphText
import Statechart.Export.Layout
import Statechart.Export.Scxml
import Statechart.Grammar.Reader
import Statechart.Main
import Statechart.Model.Reading
import Statechart.Model.Subject
import Statechart.Number.Reading
import Statechart.Validation.Checks
import Statechart.Value
import Statechart.Proofs.Validation.Cycles
import Statechart.Proofs.Validation.WellFormed
import Statechart.Proofs.Validation.Circles
import Statechart.Proofs.Engine.Ends
import Statechart.Proofs.Engine.Walk
import Statechart.Proofs.Engine.Operation
import Statechart.Proofs.Engine.Simulation
import Statechart.Proofs.Engine.Recording
import Statechart.Proofs.Engine.Posting
import Statechart.Proofs.Engine.Rollback
import Statechart.Proofs.Engine.Conservation
import Statechart.Proofs.Engine.Loading
import Statechart.Proofs.Engine.Retention
import Statechart.Proofs.Engine.Expiry
import Statechart.Proofs.Model.Lookup
import Statechart.Proofs.Engine.Completion
import Statechart.Proofs.Engine.Quiet
import Statechart.Proofs.Engine.Armed
import Statechart.Proofs.Engine.View
import Statechart.Proofs.Engine.Reordering
import Statechart.Proofs.Engine.Unreachable
import Statechart.Proofs.Engine.Reentry
import Statechart.Proofs.Engine.FailedLoad
import Statechart.Proofs.Engine.RunToCompletion
import Statechart.Proofs.Engine.Course
import Statechart.Proofs.Engine.Showing
import Statechart.Proofs.Engine.TimerHistory
import Statechart.Proofs.Engine.Schedule
import Statechart.Proofs.Engine.Ticks
import Statechart.Proofs.Engine.Interleaving
import Statechart.Proofs.Engine.Termination
import Statechart.Proofs.Validation.Shadowing
import Statechart.Proofs.CommandLine.Simulating
import Statechart.Proofs.Codegen.Display
import Statechart.Proofs.Codegen.Outline
import Statechart.Proofs.Codegen.TableText
import Statechart.Proofs.Codegen.Dispatch
import Statechart.Proofs.Export.Document
import Statechart.Proofs.Export.Closure
import Statechart.Proofs.Export.Arrows
import Statechart.Proofs.Export.Comments
import Statechart.Proofs.Grammar.Derivation
import Statechart.Proofs.Grammar.Pattern
import Statechart.Proofs.Grammar.Soundness
import Statechart.Proofs.Grammar.Lexing
import Statechart.Proofs.Grammar.Words
import Statechart.Proofs.Grammar.Spans
import Statechart.Proofs.Grammar.Layout
import Statechart.Proofs.Grammar.Course
import Statechart.Proofs.Grammar.Refusal
import Statechart.Proofs.Grammar.Slots
import Statechart.Proofs.Grammar.Lookup
import Statechart.Proofs.Model.RoundTrip
import Statechart.Proofs.Model.Building
import Statechart.Proofs.Model.Layout
import Statechart.Proofs.Model.Parts
import Statechart.Proofs.Model.Declared
import Statechart.Proofs.Codegen.Header
import Statechart.Proofs.Codegen.Members
