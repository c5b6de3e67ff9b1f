import Mend.Catalog
import Mend.Command.Run
import Mend.Diff.Unified
import Mend.Engine.Basic
import Mend.Json.Printer
import Mend.Json.Reader
import Mend.Main
import Mend.Project.Memory
import Mend.Project.Rows
import Mend.Project.Undo
import Mend.Proofs.Confidence
import Mend.Proofs.Engine.History
import Mend.Proofs.Engine.Journal
import Mend.Proofs.Selection
import Mend.Report.Export
import Mend.Report.Plan
import Mend.Report.Session
import Mend.Report.Tables
import Mend.Settings
import Mend.Store
import Mend.Proofs.Text.Reading
import Mend.Proofs.Text.Scanning
import Mend.Proofs.Idiom
import Mend.Proofs.Fix.Place
import Mend.Proofs.Fix.Contract
import Mend.Proofs.Fix.Replay
import Mend.Proofs.Engine.Buckets
import Mend.Proofs.Engine.Failure
import Mend.Proofs.Engine.Success
import Mend.Proofs.Calendar
import Mend.Proofs.Store
import Mend.Proofs.Project.Path
import Mend.Proofs.Json
import Mend.Proofs.Text.Utf8
import Mend.Proofs.Project.Manifest
import Mend.Proofs.Project.Tree
import Mend.Proofs.Project.Deeds
import Mend.Proofs.Project.Backup
import Mend.Proofs.Project.Undo
import Mend.Proofs.Outcomes
import Mend.Proofs.Plan
import Mend.Proofs.Rule
import Mend.Proofs.Engine.Console
import Mend.Proofs.Command.Scan
import Mend.Proofs.Command.Fix
import Mend.Proofs.Command.Undo
import Mend.Proofs.Project.FileLines
import Mend.Proofs.Registrations
import Mend.Proofs.Fix.Settled
import Mend.Proofs.Fix.Reminders
import Mend.Proofs.Fix.Freshness
import Mend.Proofs.Fix.Cascade
import Mend.Proofs.Fix.Spared
import Mend.Proofs.Fix.Async
import Mend.Proofs.Fix.Handlers
import Mend.Proofs.Fix.Secrets
import Mend.Proofs.Fix.Measured
import Mend.Proofs.Fix.Origins
import Mend.Proofs.Fix.Reported
import Mend.Proofs.Thresholds
import Mend.Proofs.Detection
import Mend.Proofs.Verification
import Mend.Proofs.Saving
import Mend.Proofs.Project.AllOrNothing
import Mend.Proofs.Text.Markup
import Mend.Proofs.Report
import Mend.Proofs.Command.Paths
import Mend.Proofs.Fix.Deferred
import Mend.Proofs.Metrics
