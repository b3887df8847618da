import ServerHub.Posix.Disk
import ServerHub.Posix.Walk
import ServerHub.Transfer.Confinement
import ServerHub.Transfer.Replica
import ServerHub.Backups.Collisions
import ServerHub.Backups.Extraction
import ServerHub.Backups.RoundTrip
import ServerHub.SafeHttp.Dialer
import ServerHub.Auth.Lockout
import ServerHub.Auth.Schedule
import ServerHub.Interleave.Contract
import ServerHub.Interleave.Discipline
import ServerHub.Posix.FileTree
import ServerHub.Relational.Table
import ServerHub.VgBackup.Expiry
import ServerHub.VgBackup.Inflight
import ServerHub.VgBackup.Retry
import ServerHub.VgBackup.PolicyDetach
import ServerHub.VgBackup.Boundary
import ServerHub.VgBackup.ClaimConfig
import ServerHub.VgBackup.RetentionFiles
import ServerHub.VgBackup.Verification
import ServerHub.VgBackup.Executable
import ServerHub.VgBackup.Ownership
import ServerHub.VgBackup.Revocation
import ServerHub.VgBackup.Enrollment
import ServerHub.VgBackup.Registration
import ServerHub.VgBackup.RestoreMachine
import ServerHub.VgBackup.Idempotence
import ServerHub.VgBackup.Visibility
import ServerHub.VgBackup.PolicyStorage
import ServerHub.Delivery.Cycle
import ServerHub.Delivery.Limits
import ServerHub.Delivery.Throttle
import ServerHub.Delivery.Accounting
import ServerHub.Delivery.Digests
import ServerHub.Delivery.Legacy
import ServerHub.Delivery.Pruning
import ServerHub.Rules.Recovery
import ServerHub.Rules.Claims
import ServerHub.Rules.Stored
import ServerHub.Delivery.Pause
import ServerHub.Auth.Window
import ServerHub.Auth.Administrators
import ServerHub.Auth.Sessions
import ServerHub.Auth.Rotation
import ServerHub.Alerting.Incidents
import ServerHub.Alerting.Offline
import ServerHub.Alerting.Balance
import ServerHub.Deploy.Repository
import ServerHub.Deploy.Checked
import ServerHub.Deploy.Complete
import ServerHub.Deploy.Contained
import ServerHub.Mobile.Logout
import ServerHub.Monitoring.Limits
import ServerHub.Notify.Groups
import ServerHub.Delivery.Grouping
import ServerHub.Rules.Language
import ServerHub.Delivery.Encoding
import ServerHub.Backups.Snapshot
import ServerHub.Mobile.Startup
import ServerHub.Transfer.Wholeness
import ServerHub.Transfer.Arrival
import ServerHub.Transfer.ClientPath
import ServerHub.Retention.Metrics
import ServerHub.Discovery.Docker
import ServerHub.HealthCheck.Runner
import ServerHub.Databases.Reply
import ServerHub.Notify.Email
import ServerHub.Containers.Shells
import ServerHub.Databases.Credentials
import ServerHub.Deploy.Reported
import ServerHub.Events.Delivery
import ServerHub.Agent.Loop
import ServerHub.Containers.Logs
import ServerHub.Database.Immutability
import ServerHub.Database.Pruning
import ServerHub.Database.Rebind
import ServerHub.Health.Checker
import ServerHub.Health.Monitor
import ServerHub.Interleave.Lowering
import ServerHub.Interleave.Turns
import ServerHub.Mobile.Calls
import ServerHub.Operations.Jobs
import ServerHub.Operations.Outcomes
import ServerHub.Relational.Picks
import ServerHub.Secrets.Reveals
import ServerHub.Servers.Admissions
