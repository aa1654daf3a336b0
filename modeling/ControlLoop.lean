import ControlLoop.Api.Request
import ControlLoop.Api.Response
import ControlLoop.Clock
import ControlLoop.Conditions
import ControlLoop.Conditions.Encoding
import ControlLoop.Config
import ControlLoop.Config.Flags
import ControlLoop.Controller
import ControlLoop.Controller.Run
import ControlLoop.Digest.Content
import ControlLoop.Digest.DesiredState
import ControlLoop.Digest.Sha256
import ControlLoop.Drain
import ControlLoop.Drain.Group
import ControlLoop.Drain.History
import ControlLoop.Drain.Members
import ControlLoop.Duration
import ControlLoop.Engine
import ControlLoop.Engine.Change
import ControlLoop.Error
import ControlLoop.Json.Decode
import ControlLoop.Json.Failure
import ControlLoop.Json.Parser
import ControlLoop.Json.Printer
import ControlLoop.Json.Reader
import ControlLoop.Json.Skipping
import ControlLoop.Json.Texts
import ControlLoop.Json.Value
import ControlLoop.Logging
import ControlLoop.Metrics
import ControlLoop.Names
import ControlLoop.Number.Approximation
import ControlLoop.Number.Binary
import ControlLoop.Number.Layout
import ControlLoop.Number.Reading
import ControlLoop.Number.Shortest
import ControlLoop.Object
import ControlLoop.Object.ConfigMap
import ControlLoop.Object.Encoding
import ControlLoop.Object.Key
import ControlLoop.Object.Metadata
import ControlLoop.Object.Ownership
import ControlLoop.Outcome
import ControlLoop.Proofs.Api.Queries
import ControlLoop.Proofs.Conditions.History
import ControlLoop.Proofs.Conditions.RoundTrip
import ControlLoop.Proofs.Controller.Diary
import ControlLoop.Proofs.Controller.Patrol
import ControlLoop.Proofs.Controller.Rounds
import ControlLoop.Proofs.Digest.Collections
import ControlLoop.Proofs.Digest.Contributions
import ControlLoop.Proofs.Digest.Digits
import ControlLoop.Proofs.Digest.FieldOrder
import ControlLoop.Proofs.Digest.Terminated
import ControlLoop.Proofs.Drain.Campaign
import ControlLoop.Proofs.Drain.Changes
import ControlLoop.Proofs.Drain.JointCourse
import ControlLoop.Proofs.Drain.Lifecycle
import ControlLoop.Proofs.Drain.Marks
import ControlLoop.Proofs.Drain.Rounds
import ControlLoop.Proofs.Drain.Safety
import ControlLoop.Proofs.Drain.Transitions
import ControlLoop.Proofs.Duration.Grammar
import ControlLoop.Proofs.Engine.Attempts
import ControlLoop.Proofs.Engine.Blueprint
import ControlLoop.Proofs.Engine.Classing
import ControlLoop.Proofs.Engine.Convergence
import ControlLoop.Proofs.Engine.Description
import ControlLoop.Proofs.Engine.Effects
import ControlLoop.Proofs.Engine.Exchanges
import ControlLoop.Proofs.Engine.Frame
import ControlLoop.Proofs.Engine.Gate
import ControlLoop.Proofs.Engine.Isolation
import ControlLoop.Proofs.Engine.Merge
import ControlLoop.Proofs.Engine.Notices
import ControlLoop.Proofs.Engine.Optimism
import ControlLoop.Proofs.Engine.Outcomes
import ControlLoop.Proofs.Engine.Places
import ControlLoop.Proofs.Engine.Quiescence
import ControlLoop.Proofs.Engine.Sealing
import ControlLoop.Proofs.Engine.Shown
import ControlLoop.Proofs.Engine.Tally
import ControlLoop.Proofs.Engine.Taxonomy
import ControlLoop.Proofs.Engine.Turndown
import ControlLoop.Proofs.Engine.Turns
import ControlLoop.Proofs.Engine.Writes
import ControlLoop.Proofs.Json.Written
import ControlLoop.Proofs.Names.Apart
import ControlLoop.Proofs.Names.Labels
import ControlLoop.Proofs.Names.Validity
import ControlLoop.Proofs.Number.Rounding
import ControlLoop.Proofs.Object.Annotations
import ControlLoop.Proofs.Outcome
import ControlLoop.Proofs.Outcome.Batches
import ControlLoop.Proofs.Resync.Advance
import ControlLoop.Proofs.Resync.Course
import ControlLoop.Proofs.Resync.Ledger
import ControlLoop.Proofs.Resync.Survival
import ControlLoop.Proofs.Rollout.Cascade
import ControlLoop.Proofs.Rollout.Choice
import ControlLoop.Proofs.Rollout.InFlight
import ControlLoop.Proofs.SortedMap
import ControlLoop.Proofs.Store.Answers
import ControlLoop.Proofs.Store.Selecting
import ControlLoop.Proofs.Store.Serving
import ControlLoop.Proofs.Store.Shared
import ControlLoop.Proofs.Store.Since
import ControlLoop.Proofs.Store.Traced
import ControlLoop.Proofs.Store.Versions
import ControlLoop.Proofs.Timers.Integrity
import ControlLoop.Proofs.Timers.Jittering
import ControlLoop.Proofs.Timers.Keeping
import ControlLoop.Proofs.Timers.Sifting
import ControlLoop.Proofs.Timers.Timetable
import ControlLoop.Resync
import ControlLoop.Rollout
import ControlLoop.Rollout.Cascade
import ControlLoop.Rollout.Release
import ControlLoop.Serial
import ControlLoop.SortedMap
import ControlLoop.Store
import ControlLoop.Store.Memory
import ControlLoop.Store.Remote
import ControlLoop.Store.Watched
import ControlLoop.Strategy
import ControlLoop.Strategy.Edit
import ControlLoop.Strategy.Script
import ControlLoop.Text.Blank
import ControlLoop.Text.Bytes
import ControlLoop.Text.FormEncoded
import ControlLoop.Text.Lines
import ControlLoop.Text.Printable
import ControlLoop.Text.Quoted
import ControlLoop.Timers.Heap
import ControlLoop.Timers.Jitter
import ControlLoop.Timestamp
