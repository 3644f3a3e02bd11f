import AgentHub.Relational.Evolution
import AgentHub.Relational.Table
import AgentHub.Relational.Serial
import AgentHub.Relational.Transaction
import AgentHub.Relational.Transition
import AgentHub.Common.Clock
import AgentHub.Common.Union
import AgentHub.Calendar.Gregorian
import AgentHub.Calendar.Decimal
import AgentHub.Common.Iso
import AgentHub.Hub.Evolution
import AgentHub.Hub.Ownership
import AgentHub.Hub.Inbox
import AgentHub.Hub.Fifo
import AgentHub.Hub.Sweeping
import AgentHub.Hub.Release
import AgentHub.Polling.Loop
import AgentHub.MergeGate.Report
import AgentHub.MergeGate.Check
import AgentHub.MergeGate.FailClosed
import AgentHub.MergeGate.Bounded
import AgentHub.MergeGate.Heads
import AgentHub.Framing.Lines
import AgentHub.Mcp.Stdin
import AgentHub.Wire.Events
import AgentHub.Intervals.Region
import AgentHub.Report.Spans
import AgentHub.Report.Figures
import AgentHub.Effects.Program
import AgentHub.Git.History
import AgentHub.Driver.Sandbox
import AgentHub.Driver.Once
import AgentHub.Driver.Checkpoints
import AgentHub.Driver.Recovery
import AgentHub.Driver.Merging
import AgentHub.Driver.Idempotence
import AgentHub.Hub.Redelivery
import AgentHub.Hub.Replay
import AgentHub.Hub.Protocol
import AgentHub.Hub.Fencing
import AgentHub.Hub.Submission
import AgentHub.Hub.Streams
import AgentHub.Hub.Handover
import AgentHub.Hub.Wakeups
import AgentHub.Hub.Termination
import AgentHub.Hub.Lifecycle
import AgentHub.Hub.Parking
import AgentHub.Hub.Identity
import AgentHub.Hub.Leases
import AgentHub.Hub.Liveness
import AgentHub.Hub.Transcript
import AgentHub.Migration.Preservation
import AgentHub.Migration.Restart
import AgentHub.Hub.Reports
import AgentHub.Hub.Answers
import AgentHub.Worker.ExactlyOnce
import AgentHub.Worker.Profile
import AgentHub.Worker.Question
import AgentHub.Alice.Recovery
import AgentHub.Report.Calls
