import SchemaGraph.Scenario.Schedule
import SchemaGraph.Scenario.Blueprint
import SchemaGraph.Main
import SchemaGraph.Proofs.Registry.Change
import SchemaGraph.Proofs.Registry.Construction
import SchemaGraph.Proofs.Registry.Sleep
import SchemaGraph.Proofs.Registry.Coherence
import SchemaGraph.Proofs.Registry.Lifecycle
import SchemaGraph.Proofs.Registry.Progress
import SchemaGraph.Proofs.Registry.Motion
import SchemaGraph.Proofs.Registry.Origin
import SchemaGraph.Proofs.Decimal.Interval
import SchemaGraph.Proofs.Text.Quoted
import SchemaGraph.Proofs.Decimal.Reading
import SchemaGraph.Proofs.Identity.Agreement
import SchemaGraph.Proofs.Identity.Unambiguous
import SchemaGraph.Proofs.Identity.Equality
import SchemaGraph.Proofs.Registry.Reply
import SchemaGraph.Proofs.Registry.Confluence
import SchemaGraph.Proofs.Registry.Alone
import SchemaGraph.Proofs.Registry.Bounded
import SchemaGraph.Proofs.Registry.Ending
import SchemaGraph.Proofs.Hash.Lanes
import SchemaGraph.Proofs.Schema.Definitions
import SchemaGraph.Proofs.Schema.Closure
import SchemaGraph.Proofs.Schema.Walk
import SchemaGraph.Proofs.Schema.Graph
import SchemaGraph.Proofs.Schema.Built
import SchemaGraph.Proofs.Schema.History
import SchemaGraph.Proofs.Registry.Outside
import SchemaGraph.Proofs.Registry.Action
import SchemaGraph.Proofs.Registry.Tally
import SchemaGraph.Proofs.Registry.Unwind
import SchemaGraph.Proofs.Schema.Collect
import SchemaGraph.Proofs.Registry.Calls
import SchemaGraph.Proofs.Registry.Sink
import SchemaGraph.Proofs.TypeExpr.Written
import SchemaGraph.Proofs.TypeExpr.Grammar
import SchemaGraph.Proofs.TypeExpr.RoundTrip
import SchemaGraph.Proofs.TypeExpr.Positions
import SchemaGraph.Proofs.Nodes.Accepted
import SchemaGraph.Proofs.Schema.QueryFields
import SchemaGraph.Proofs.Registry.Barred
import SchemaGraph.Proofs.Schema.References
import SchemaGraph.Proofs.Schema.Requests
import SchemaGraph.Proofs.Command.Rendering
import SchemaGraph.Proofs.Registry.Orderly
import SchemaGraph.Proofs.Schema.Termination
import SchemaGraph.Proofs.Registry.Unfailed
import SchemaGraph.Proofs.Schema.Readback
import SchemaGraph.Proofs.Identity.MapEquality
import SchemaGraph.Proofs.Identity.Violation
import SchemaGraph.Proofs.Registry.Lookup
import SchemaGraph.Proofs.Registry.Underway
import SchemaGraph.Proofs.Registry.Rejection
import SchemaGraph.Proofs.Registry.Honest
import SchemaGraph.Proofs.Registry.FailurePath
import SchemaGraph.Proofs.Nodes.Properties
import SchemaGraph.Proofs.Command.Legible
import SchemaGraph.Proofs.Schema.Kinds
import SchemaGraph.Proofs.Registry.Counted
import SchemaGraph.Proofs.Registry.Answers
import SchemaGraph.Proofs.Schema.Census
import SchemaGraph.Proofs.Command.Statistics
import SchemaGraph.Proofs.Command.Arguments
import SchemaGraph.Proofs.Registry.Discipline
import SchemaGraph.Proofs.Identity.Entered
