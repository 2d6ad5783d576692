import Relay.FileTree
import Relay.Hub
import Relay.Proofs.Plan.Numbering
import Relay.Proofs.Plan.Flaw
import Relay.Proofs.Plan.Spans
import Relay.Proofs.Retry.Attempts
import Relay.Proofs.Dispatch.Reply
import Relay.Proofs.Dispatch.Call
import Relay.Proofs.Workflow.Calls
import Relay.Proofs.Workflow.Log
import Relay.Proofs.Workflow.Ending
import Relay.Proofs.Workflow.Accounting
import Relay.Proofs.Workflow.Timeline
import Relay.Proofs.Workflow.Rollback
import Relay.Proofs.Workflow.Compensation
import Relay.Proofs.Workflow.Correlation
import Relay.Proofs.Wire.Report
import Relay.Proofs.Workflow.Outcome
import Relay.Proofs.Workflow.DataFlow
import Relay.Proofs.Workflow.Substitution
import Relay.Proofs.Retry.Schedule
import Relay.Proofs.Checks
import Relay.Proofs.Injection.Accepted
import Relay.Proofs.Injection.Reserved
import Relay.Proofs.Settings.Validity
import Relay.Proofs.Subject
import Relay.Proofs.Settings.Routes
import Relay.Proofs.Injection.Tenant
import Relay.Proofs.Injection.Confinement
import Relay.Proofs.Settings.Including
import Relay.Proofs.Settings.Chain
import Relay.Proofs.Settings.Inclusion
import Relay.Proofs.Settings.Tree
import Relay.Proofs.FileTree
import Relay.Proofs.Settings.Confinement
import Relay.Proofs.Fault
import Relay.Proofs.Toml.Overlay
import Relay.Proofs.Toml.Sorted
import Relay.Proofs.Toml.Merging
import Relay.Proofs.Settings.Precedence
import Relay.Proofs.Settings.Spelling
import Relay.Proofs.Number.Binary64
import Relay.Proofs.Timestamp
import Relay.Proofs.Wire.Slots
import Relay.Proofs.Wire.Scalar
import Relay.Proofs.Wire.Reading
import Relay.Proofs.Wire.Header
import Relay.Proofs.Wire.Plan
import Relay.Proofs.Wire.Settings
import Relay.Proofs.Wire.Rpc
import Relay.Proofs.Wire.Envelope
import Relay.Proofs.Wire.Stability
import Relay.Proofs.Injection.Changes
import Relay.Proofs.Retry.Backoff
import Relay.Proofs.Workflow.Assembly
import Relay.Proofs.Injection.Assignment
