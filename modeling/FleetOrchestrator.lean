import FleetOrchestrator.Accounts.Auth
import FleetOrchestrator.Accounts.Bootstrap
import FleetOrchestrator.Accounts.Calls
import FleetOrchestrator.Accounts.ClientIp
import FleetOrchestrator.Accounts.Conduct
import FleetOrchestrator.Accounts.Effects
import FleetOrchestrator.Accounts.Expiry
import FleetOrchestrator.Accounts.FirstAdmin
import FleetOrchestrator.Accounts.Handlers
import FleetOrchestrator.Accounts.Limits
import FleetOrchestrator.Accounts.Logins
import FleetOrchestrator.Accounts.Logout
import FleetOrchestrator.Accounts.MailLimits
import FleetOrchestrator.Accounts.Namespaces
import FleetOrchestrator.Accounts.Purposes
import FleetOrchestrator.Accounts.Resets
import FleetOrchestrator.Accounts.Rotation
import FleetOrchestrator.Accounts.Sessions
import FleetOrchestrator.Accounts.Tables
import FleetOrchestrator.Agents.Agreement
import FleetOrchestrator.Agents.Calls
import FleetOrchestrator.Agents.Capacity
import FleetOrchestrator.Agents.ChosenWorker
import FleetOrchestrator.Agents.Commands
import FleetOrchestrator.Agents.ControlEpoch
import FleetOrchestrator.Agents.Effects
import FleetOrchestrator.Agents.Executing
import FleetOrchestrator.Agents.Observations
import FleetOrchestrator.Agents.Placement
import FleetOrchestrator.Agents.Revocation
import FleetOrchestrator.Agents.Rows
import FleetOrchestrator.Agents.Runs
import FleetOrchestrator.Agents.Slots
import FleetOrchestrator.Agents.StartStop
import FleetOrchestrator.Agents.Statements
import FleetOrchestrator.Api.AccessKeys
import FleetOrchestrator.Api.AdminTokens
import FleetOrchestrator.Api.Authorisation
import FleetOrchestrator.Api.Middleware
import FleetOrchestrator.Api.Routes
import FleetOrchestrator.Api.Withdrawals
import FleetOrchestrator.Core.Calendar
import FleetOrchestrator.Core.Errors
import FleetOrchestrator.Core.Fleet
import FleetOrchestrator.Core.Task
import FleetOrchestrator.Core.Workspace
import FleetOrchestrator.Dashboard.EventView
import FleetOrchestrator.Encoding.Base64
import FleetOrchestrator.Encoding.Components
import FleetOrchestrator.Encoding.Framing
import FleetOrchestrator.Encoding.Lines
import FleetOrchestrator.Encoding.Paths
import FleetOrchestrator.Encoding.Search
import FleetOrchestrator.Encoding.Shell
import FleetOrchestrator.Encoding.Toml
import FleetOrchestrator.Encoding.TomlLayout
import FleetOrchestrator.Encoding.TomlQuoting
import FleetOrchestrator.Encoding.TomlStrings
import FleetOrchestrator.Encoding.TomlTables
import FleetOrchestrator.Encoding.Urls
import FleetOrchestrator.Encoding.Words
import FleetOrchestrator.Enrolment.CredentialRuns
import FleetOrchestrator.Enrolment.Credentials
import FleetOrchestrator.Enrolment.EnrolRuns
import FleetOrchestrator.Enrolment.Enrolling
import FleetOrchestrator.Health.Calls
import FleetOrchestrator.Health.Scans
import FleetOrchestrator.Health.Workers
import FleetOrchestrator.Health.WriteBacks
import FleetOrchestrator.Hosts.Inventory
import FleetOrchestrator.Interleaving.Connections
import FleetOrchestrator.Interleaving.Discipline
import FleetOrchestrator.Interleaving.Log
import FleetOrchestrator.Interleaving.Passage
import FleetOrchestrator.Interleaving.Program
import FleetOrchestrator.Interleaving.Surroundings
import FleetOrchestrator.Interleaving.System
import FleetOrchestrator.Interleaving.Totals
import FleetOrchestrator.Interleaving.Twins
import FleetOrchestrator.Issues.Edits
import FleetOrchestrator.Issues.Issue
import FleetOrchestrator.Issues.Transitions
import FleetOrchestrator.Output.Buffer
import FleetOrchestrator.Output.Cursors
import FleetOrchestrator.Output.Listener
import FleetOrchestrator.Output.StreamRuns
import FleetOrchestrator.Output.Streaming
import FleetOrchestrator.Projects.Admissions
import FleetOrchestrator.Projects.Archive
import FleetOrchestrator.Projects.Lifecycle
import FleetOrchestrator.Projects.Projects
import FleetOrchestrator.Projects.Verdicts
import FleetOrchestrator.Provision.JoinCommand
import FleetOrchestrator.Provision.JoinedConfig
import FleetOrchestrator.Provision.Labels
import FleetOrchestrator.Provision.MergeConfig
import FleetOrchestrator.Provision.MergedTables
import FleetOrchestrator.Provision.Sections
import FleetOrchestrator.Provision.WorkerToml
import FleetOrchestrator.Scheduler.ActivityConduct
import FleetOrchestrator.Scheduler.Announcements
import FleetOrchestrator.Scheduler.Barrier
import FleetOrchestrator.Scheduler.Breaker
import FleetOrchestrator.Scheduler.BreakerRuns
import FleetOrchestrator.Scheduler.Cancelling
import FleetOrchestrator.Scheduler.Conduct
import FleetOrchestrator.Scheduler.ControlConduct
import FleetOrchestrator.Scheduler.Dependencies
import FleetOrchestrator.Scheduler.DispatchConduct
import FleetOrchestrator.Scheduler.Dispatcher
import FleetOrchestrator.Scheduler.Ends
import FleetOrchestrator.Scheduler.Events
import FleetOrchestrator.Scheduler.Fences
import FleetOrchestrator.Scheduler.FleetState
import FleetOrchestrator.Scheduler.Frontmatter
import FleetOrchestrator.Scheduler.Gauge
import FleetOrchestrator.Scheduler.HalfOpen
import FleetOrchestrator.Scheduler.HandOverConduct
import FleetOrchestrator.Scheduler.Incarnations
import FleetOrchestrator.Scheduler.Leadership
import FleetOrchestrator.Scheduler.Licences
import FleetOrchestrator.Scheduler.Lifecycle
import FleetOrchestrator.Scheduler.OpenBreaker
import FleetOrchestrator.Scheduler.Operations
import FleetOrchestrator.Scheduler.Orphans
import FleetOrchestrator.Scheduler.Outputs
import FleetOrchestrator.Scheduler.Permits
import FleetOrchestrator.Scheduler.Pieces
import FleetOrchestrator.Scheduler.Process
import FleetOrchestrator.Scheduler.PromptConduct
import FleetOrchestrator.Scheduler.Queues
import FleetOrchestrator.Scheduler.QuietParts
import FleetOrchestrator.Scheduler.Reconciler
import FleetOrchestrator.Scheduler.Records
import FleetOrchestrator.Scheduler.Recovery
import FleetOrchestrator.Scheduler.Restarts
import FleetOrchestrator.Scheduler.Rows
import FleetOrchestrator.Scheduler.Selection
import FleetOrchestrator.Scheduler.SelectionConduct
import FleetOrchestrator.Scheduler.Selector
import FleetOrchestrator.Scheduler.SkillLoader
import FleetOrchestrator.Scheduler.Steps
import FleetOrchestrator.Scheduler.Submission
import FleetOrchestrator.Scheduler.Sweeps
import FleetOrchestrator.Scheduler.System
import FleetOrchestrator.Scheduler.Tracks
import FleetOrchestrator.Scheduler.Vanishing
import FleetOrchestrator.Scheduler.Walk
import FleetOrchestrator.Store.Lease
import FleetOrchestrator.Store.LeaseRuns
import FleetOrchestrator.Store.Listing
import FleetOrchestrator.Store.Operations
import FleetOrchestrator.Store.State
import FleetOrchestrator.Store.SubmissionRuns
import FleetOrchestrator.Store.Submissions
import FleetOrchestrator.Store.TaskStatus
import FleetOrchestrator.Store.Tasks
import FleetOrchestrator.Store.Threads
import FleetOrchestrator.Submissions.Admission
import FleetOrchestrator.Submissions.Deletion
import FleetOrchestrator.Submissions.Duplicates
import FleetOrchestrator.Submissions.Handlers
import FleetOrchestrator.Submissions.Payload
import FleetOrchestrator.Submissions.Request
import FleetOrchestrator.Tables.Feed
import FleetOrchestrator.Tables.Grouping
import FleetOrchestrator.Tables.Keyed
import FleetOrchestrator.Tables.Outbox
import FleetOrchestrator.Tables.Paging
import FleetOrchestrator.Tables.Window
import FleetOrchestrator.Templates.Calls
import FleetOrchestrator.Templates.Gating
import FleetOrchestrator.Templates.Hashes
import FleetOrchestrator.Templates.Lifecycle
import FleetOrchestrator.Templates.Retirement
import FleetOrchestrator.Templates.Revisions
import FleetOrchestrator.Templates.RowLocks
import FleetOrchestrator.Templates.Template
import FleetOrchestrator.Templates.Templates
import FleetOrchestrator.Transport.AcpTransport
import FleetOrchestrator.Transport.Registering
import FleetOrchestrator.Transport.Registry
import FleetOrchestrator.Transport.ServerKey
import FleetOrchestrator.Transport.State
import FleetOrchestrator.Transport.Stripping
import FleetOrchestrator.Worker.ConfigFile
import FleetOrchestrator.Worker.Converging
import FleetOrchestrator.Worker.Crashes
import FleetOrchestrator.Worker.Deadline
import FleetOrchestrator.Worker.Fencing
import FleetOrchestrator.Worker.GrokVersion
import FleetOrchestrator.Worker.Join
import FleetOrchestrator.Worker.PendingEvents
import FleetOrchestrator.Worker.Processes
import FleetOrchestrator.Worker.Registration
import FleetOrchestrator.Worker.Supervision
import FleetOrchestrator.Worker.Watchdog
