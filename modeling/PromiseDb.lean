import PromiseDb.Domain.UnsortedSegments
import PromiseDb.Engine.AtMostOnce
import PromiseDb.Engine.DirectCalls
import PromiseDb.Engine.ForcedRevisions
import PromiseDb.Engine.History
import PromiseDb.Engine.Interchange
import PromiseDb.Engine.ReferenceAdmission
import PromiseDb.Engine.Rejections
import PromiseDb.Engine.ReplaceConflicts
import PromiseDb.Engine.Retries
import PromiseDb.Engine.SearchHolds
import PromiseDb.Index.SlackBounds
import PromiseDb.Index.SlackIncremental
import PromiseDb.Index.SlackNormal
import PromiseDb.Storage.CrashRuns
import PromiseDb.Storage.Database
import PromiseDb.Storage.DurableItems
import PromiseDb.Storage.FailedSnapshotRuns
import PromiseDb.Storage.FileNames
import PromiseDb.Storage.Manifests
import PromiseDb.Storage.OpeningSpares
import PromiseDb.Storage.RecordStream
import PromiseDb.Storage.RecoveredState
import PromiseDb.Storage.SnapshotReadBack
import PromiseDb.Storage.StrandedLogs
import PromiseDb.Storage.Refusals
