import Orchestrator.Exclusion
import Orchestrator.Sequential
import Orchestrator.Changes
import Orchestrator.Requests
import Orchestrator.Journal
import Orchestrator.Budget
import Orchestrator.Library.Registry
import Orchestrator.Submission
import Orchestrator.Idempotence
import Orchestrator.Settlement
import Orchestrator.Publication
import Orchestrator.Conversions
import Orchestrator.Enrichment
import Orchestrator.Library.Calendar
import Orchestrator.Library.TextOrder
import Orchestrator.Timestamps
import Orchestrator.Readings
import Orchestrator.Scheduling
import Orchestrator.FailClosed
import Orchestrator.RetryAfter
import Orchestrator.Adapters
import Orchestrator.Classification
import Orchestrator.Dispatching
import Orchestrator.Callers
import Orchestrator.Contents
import Orchestrator.Atomicity
import Orchestrator.Orphans
import Orchestrator.Chronology
import Orchestrator.Progress
import Orchestrator.Draining
import Orchestrator.Cooling
import Orchestrator.Backpressure
import Orchestrator.Cooldowns
import Orchestrator.Views
import Orchestrator.AuditView
import Orchestrator.Snapshot
import Orchestrator.Backoff
import Orchestrator.Library.Dict
import Orchestrator.Observability
import Orchestrator.Library.AtomicObject
import Orchestrator.Linearization
import Orchestrator.Custody
import Orchestrator.Reports
import Orchestrator.Library.Hosting
import Orchestrator.Server
import Orchestrator.Serving
import Orchestrator.Deployment
import Orchestrator.Acceptance
import Orchestrator.Overtaking
import Orchestrator.Library.Expansion
import Orchestrator.Execution
import Orchestrator.Delivery
import Orchestrator.HttpDate
import Orchestrator.Library.Moments
import Orchestrator.Answers
import Orchestrator.Library.Exposition
import Orchestrator.Scraping
import Orchestrator.Monitoring
