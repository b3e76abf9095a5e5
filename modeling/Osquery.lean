import Osquery.Core.IntegerConversion
import Osquery.Database.Remote
import Osquery.Database.Migration
import Osquery.Database.Agreement
import Osquery.Database.Backends
import Osquery.Database.EventRenaming
import Osquery.DifferentialQueries.Replay
import Osquery.EventSubscribers.Interleavings
import Osquery.EventSubscribers.NewestEvents
import Osquery.EventSubscribers.TimeConstraints
import Osquery.Config.ViewRuns
import Osquery.Config.GuardedLoading
import Osquery.Config.Backup
import Osquery.Config.Decorators
import Osquery.Config.Splay
import Osquery.Config.Comments
import Osquery.Scheduler.Restart
import Osquery.Scheduler.BlacklistRestore
import Osquery.Scheduler.Runner
import Osquery.Logger.Isolation
import Osquery.Logger.Restarts
import Osquery.Logger.AwsLimits
import Osquery.Logger.AwsRetries
import Osquery.Logger.Purging
import Osquery.Logger.Logging
import Osquery.DistributedQueries.Delivery
import Osquery.DistributedQueries.SharedDomain
import Osquery.DistributedQueries.Rejection
import Osquery.Tables.Transparency
import Osquery.Tables.CacheAge
import Osquery.Tables.HashHeap
import Osquery.Tables.Indexes
import Osquery.Tables.IntegerColumns
import Osquery.Tables.ConstraintQueries
import Osquery.Tables.Transport
import Osquery.Tables.PciLookups
import Osquery.Filesystem.ReadFile
import Osquery.Filesystem.Globs
import Osquery.EventPublishers.PathReads
import Osquery.AuditTables.CommandLines
import Osquery.AuditTables.SocketAddresses
import Osquery.AuditTables.SubscriberSafety
import Osquery.EventPublishers.WatchRuns
import Osquery.FileEvents.KernelTables
import Osquery.FileEvents.Renames
import Osquery.FileEvents.CrashFreedom
import Osquery.FileEvents.AccessReports
import Osquery.FileEvents.IncludedPaths
import Osquery.FileEvents.TrackingLimits
import Osquery.Watchdog.Respawn
import Osquery.Smbios.ExactParsing
import Osquery.Smbios.FormattedArea
import Osquery.MdTables.Termination
import Osquery.MdTables.Drives
import Osquery.Registry.RoundTrip
import Osquery.Registry.ExtensionManager
import Osquery.Carving.Completeness
import Osquery.Remote.UriParts
import Osquery.Remote.TlsTransport
import Osquery.Remote.Addressing
import Osquery.Remote.Enrollment
import Osquery.Dispatcher.Stopping
import Osquery.Core.DropPrivileges
import Osquery.Config.ConstructedTables
import Osquery.Logger.StatusLogs
import Osquery.Sql.Connections
import Osquery.NumericMonitoring.Buffer
import Osquery.EventPublishers.AuditPipeline
import Osquery.EventPublishers.SyslogIngestion
import Osquery.EventSubscribers.PublisherThreads
