import Rulebook.Authoring
import Rulebook.Calendar.Date
import Rulebook.Calendar.IsoText
import Rulebook.Calendar.Moment
import Rulebook.Calendar.Timestamp
import Rulebook.Catalogue
import Rulebook.Condition.Basic
import Rulebook.Condition.Evaluation
import Rulebook.Condition.Fields
import Rulebook.Condition.Reader
import Rulebook.Directive.Basic
import Rulebook.Directive.Check
import Rulebook.Directive.DueDate
import Rulebook.Directive.Plan
import Rulebook.Engine.Basic
import Rulebook.Engine.Call
import Rulebook.Engine.Wire
import Rulebook.Entity.Source
import Rulebook.Entity.Table
import Rulebook.Evaluation
import Rulebook.Failure
import Rulebook.Fault
import Rulebook.Filing
import Rulebook.Http.Bodies
import Rulebook.Http.Form
import Rulebook.Http.Message
import Rulebook.Http.Route
import Rulebook.Http.Service
import Rulebook.Http.Target
import Rulebook.Impact.Run
import Rulebook.Impact.Scan
import Rulebook.Impact.Schedule
import Rulebook.Lifecycle
import Rulebook.Model.Finding
import Rulebook.Model.Impact
import Rulebook.Model.Pack
import Rulebook.Model.Row
import Rulebook.Model.Rule
import Rulebook.Number.Decimal
import Rulebook.Number.Double
import Rulebook.Number.Numeral
import Rulebook.Number.Rounded
import Rulebook.Number.Rounding
import Rulebook.Number.Shortest
import Rulebook.Proofs.Store.Chain
import Rulebook.Proofs.Store.Change
import Rulebook.Proofs.Store.Intact
import Rulebook.Proofs.Store.Rows
import Rulebook.Proofs.Store.Run
import Rulebook.Review
import Rulebook.Store.Basic
import Rulebook.Store.Column
import Rulebook.Store.Txn
import Rulebook.Store.View
import Rulebook.Store.Writes
import Rulebook.Text.Ascending
import Rulebook.Text.Basic
import Rulebook.Text.Blank
import Rulebook.Text.Digit
import Rulebook.Text.Encoding
import Rulebook.Text.Infix
import Rulebook.Text.Printable
import Rulebook.Text.Quoted
import Rulebook.Uuid
import Rulebook.Value.Basic
import Rulebook.Value.Coercion
import Rulebook.Value.Equality
import Rulebook.Value.Json
import Rulebook.Value.JsonForm
import Rulebook.Value.Path
import Rulebook.Value.Sendable
import Rulebook.Value.Shown
import Rulebook.Proofs.Store.Saving
import Rulebook.Proofs.Calls.Authoring
import Rulebook.Proofs.Calls.Lifecycle
import Rulebook.Proofs.Calls.Filing
import Rulebook.Proofs.Calls.Review
import Rulebook.Proofs.Condition.Reading
import Rulebook.Proofs.Directive.DueDate
import Rulebook.Proofs.Calls.Impact
import Rulebook.Proofs.History
import Rulebook.Proofs.Store.Frame
import Rulebook.Proofs.ActiveVersion
import Rulebook.Proofs.Activation
import Rulebook.Proofs.FindingLife
import Rulebook.Proofs.Evaluation
import Rulebook.Proofs.RunLife
import Rulebook.Proofs.FailurePolicy
import Rulebook.Proofs.DryRun
import Rulebook.Proofs.Store.Within
import Rulebook.Proofs.VersionStep
import Rulebook.Proofs.VersionLife
import Rulebook.Proofs.Tenancy.Findings
import Rulebook.Proofs.Tenancy.Holdings
import Rulebook.Proofs.Tenancy.Impact
import Rulebook.Proofs.Tenancy.Isolation
import Rulebook.Proofs.Tenancy.Mirror
import Rulebook.Proofs.Tenancy.Rules
import Rulebook.Proofs.Tenancy.Schedule
import Rulebook.Proofs.Tenancy.Twins
import Rulebook.Proofs.Tenancy.Writes
import Rulebook.Proofs.Store.Lasting
import Rulebook.Proofs.Evidence
import Rulebook.Proofs.OverrideTrail
import Rulebook.Proofs.StaleLookUp
import Rulebook.Proofs.Reevaluation
import Rulebook.Proofs.Results
import Rulebook.Proofs.Condition.Places
import Rulebook.Proofs.Condition.Policies
import Rulebook.Proofs.Condition.Grammar
import Rulebook.Proofs.VersionNumbers
import Rulebook.Proofs.References
import Rulebook.Proofs.Text.Ascending
import Rulebook.Proofs.Condition.Fields
import Rulebook.Proofs.Condition.Monotone
import Rulebook.Proofs.Condition.Snapshot
import Rulebook.Proofs.Number.Double
import Rulebook.Proofs.Value.Fields
import Rulebook.Proofs.Value.Equality
import Rulebook.Proofs.Condition.Operators
import Rulebook.Proofs.Condition.Coherence
import Rulebook.Proofs.Condition.Faults
import Rulebook.Proofs.Condition.NumericText
import Rulebook.Proofs.Directive.Plan
import Rulebook.Proofs.Calendar.Civil
import Rulebook.Proofs.Calendar.IsoText
import Rulebook.Proofs.Number.WholePart
import Rulebook.Proofs.Value.DayCount
import Rulebook.Proofs.Directive.RelativeDate
import Rulebook.Proofs.Directive.WellFormed
import Rulebook.Proofs.Directive.Deadline
import Rulebook.Proofs.Directive.Execution
import Rulebook.Proofs.Store.Verdict
import Rulebook.Proofs.FilingOutcome
import Rulebook.Proofs.FilingVerdict
import Rulebook.Proofs.ParallelRuns
import Rulebook.Proofs.Commuting
import Rulebook.Proofs.CreationOrder
import Rulebook.Proofs.Succession
import Rulebook.Proofs.RunMessages
import Rulebook.Proofs.Tasks
import Rulebook.Proofs.TaskLife
import Rulebook.Proofs.ResultPage
import Rulebook.Proofs.ScannedType
import Rulebook.Proofs.ProjectedSeverity
import Rulebook.Proofs.FiledIdentity
import Rulebook.Proofs.Value.JsonForm
import Rulebook.Proofs.Value.PathComposition
import Rulebook.Proofs.Condition.Worklist
import Rulebook.Proofs.CheckedPlan
import Rulebook.Proofs.Citations
