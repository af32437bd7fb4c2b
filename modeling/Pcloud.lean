import Pcloud.Auth.AuthApi
import Pcloud.Auth.AuthFlow
import Pcloud.Auth.SessionManager
import Pcloud.Backends.CommittedUpload
import Pcloud.Backends.DownloadToPath
import Pcloud.Backends.IgnorePatterns
import Pcloud.Backends.KeepSet
import Pcloud.Backends.PoisonedSession
import Pcloud.Backends.SnapshotArchive
import Pcloud.Backends.SnapshotRestore
import Pcloud.Backends.SnapshotHistory
import Pcloud.Backends.SnapshotRetention
import Pcloud.Backends.StepRun
import Pcloud.Backends.SyncBackend
import Pcloud.Backends.UniqueName
import Pcloud.Backends.UploadJournal
import Pcloud.Backends.UploadSessions
import Pcloud.Backends.UploadState
import Pcloud.Backends.UploadSteps
import Pcloud.Cache.PageCache
import Pcloud.Cache.Staging
import Pcloud.Crypto.AuthTree
import Pcloud.Crypto.Base32
import Pcloud.Crypto.Calls
import Pcloud.Crypto.CompatProfile
import Pcloud.Crypto.Content
import Pcloud.Crypto.DataKey
import Pcloud.Crypto.Filename
import Pcloud.Crypto.FolderRegistry
import Pcloud.Crypto.KeyTtl
import Pcloud.Crypto.Kms
import Pcloud.Crypto.Lockout
import Pcloud.Crypto.Modes
import Pcloud.Crypto.NonceBudget
import Pcloud.Crypto.Operations
import Pcloud.Crypto.Outcomes
import Pcloud.Crypto.Password
import Pcloud.Crypto.PasswordScorer
import Pcloud.Crypto.Primitives
import Pcloud.Crypto.Readable
import Pcloud.Crypto.Residency
import Pcloud.Crypto.Rotation
import Pcloud.Crypto.Sector
import Pcloud.Crypto.Shell
import Pcloud.Crypto.StartOver
import Pcloud.Crypto.Suite
import Pcloud.Crypto.TreeBinding
import Pcloud.Crypto.TreeIndex
import Pcloud.Daemon.Attribution
import Pcloud.Daemon.Crash
import Pcloud.Daemon.Credit
import Pcloud.Daemon.Deletions
import Pcloud.Daemon.Direction
import Pcloud.Daemon.Execute
import Pcloud.Daemon.HaLease
import Pcloud.Daemon.LocalWalk
import Pcloud.Daemon.MetadataCache
import Pcloud.Daemon.Payload
import Pcloud.Daemon.Reset
import Pcloud.Daemon.Retry
import Pcloud.Daemon.Runtime
import Pcloud.Daemon.ServeLoop
import Pcloud.Daemon.SessionTimers
import Pcloud.Daemon.SignIn
import Pcloud.Daemon.SignInRuns
import Pcloud.Daemon.TokenFile
import Pcloud.Daemon.TransferBridge
import Pcloud.Daemon.Turn
import Pcloud.Daemon.Walk
import Pcloud.Engine.ConflictRename
import Pcloud.Engine.Conflicts
import Pcloud.Engine.Deletes
import Pcloud.Engine.DurableQueue
import Pcloud.Engine.FairBatch
import Pcloud.Engine.FsEvents
import Pcloud.Engine.Isolation
import Pcloud.Engine.Ledger
import Pcloud.Engine.Normalize
import Pcloud.Engine.Outstanding
import Pcloud.Engine.Paused
import Pcloud.Engine.PlanTicks
import Pcloud.Engine.Planner
import Pcloud.Engine.PlannerSpec
import Pcloud.Engine.Recovery
import Pcloud.Engine.Replay
import Pcloud.Engine.RootGroups
import Pcloud.Engine.Scheduler
import Pcloud.Engine.Shell
import Pcloud.Engine.Transfers
import Pcloud.Fs.AppendWrites
import Pcloud.Fs.Budget
import Pcloud.Fs.ChunkedUpload
import Pcloud.Fs.CleanUploaded
import Pcloud.Fs.Debounce
import Pcloud.Fs.FsWatcher
import Pcloud.Fs.Inode
import Pcloud.Fs.JournalCrc
import Pcloud.Fs.JournalFile
import Pcloud.Fs.JournalTail
import Pcloud.Fs.LookupReplies
import Pcloud.Fs.MetadataCache
import Pcloud.Fs.NamespaceCalls
import Pcloud.Fs.PageCache
import Pcloud.Fs.PathNorm
import Pcloud.Fs.ReadPath
import Pcloud.Fs.WriteAhead
import Pcloud.Fs.WriteCalls
import Pcloud.Fs.WriteJournal
import Pcloud.Fs.WritePath
import Pcloud.Fs.WriteWorld
import Pcloud.Fs.Writeback
import Pcloud.Ipc.ConnectionCaps
import Pcloud.Ipc.Exchange
import Pcloud.Ipc.Protocol
import Pcloud.Lib.AgeLadder
import Pcloud.Lib.Answers
import Pcloud.Lib.BestOf
import Pcloud.Lib.BlockChain
import Pcloud.Lib.Calendar
import Pcloud.Lib.Checked
import Pcloud.Lib.Coalesce
import Pcloud.Lib.Crc
import Pcloud.Lib.Digits
import Pcloud.Lib.FairTake
import Pcloud.Lib.Forest
import Pcloud.Lib.FrameLog
import Pcloud.Lib.Glob
import Pcloud.Lib.HashChain
import Pcloud.Lib.KeyStream
import Pcloud.Lib.Lines
import Pcloud.Lib.LittleEndian
import Pcloud.Lib.LruMap
import Pcloud.Lib.Pacing
import Pcloud.Lib.Packets
import Pcloud.Lib.Program
import Pcloud.Lib.Recency
import Pcloud.Lib.Reps
import Pcloud.Lib.Runs
import Pcloud.Lib.Segments
import Pcloud.Lib.SelfDelimiting
import Pcloud.Lib.Sha256
import Pcloud.Lib.Span
import Pcloud.Lib.StableSort
import Pcloud.Lib.Threads
import Pcloud.Lib.Transaction
import Pcloud.Lib.Utf8
import Pcloud.Model.Bytes
import Pcloud.Model.OsPath
import Pcloud.Model.Sync
import Pcloud.Proto.ChunkBounds
import Pcloud.Proto.DiffApi
import Pcloud.Proto.DownloadRetries
import Pcloud.Proto.HttpDownload
import Pcloud.Proto.HttpFraming
import Pcloud.Proto.Numerals
import Pcloud.Proto.Request
import Pcloud.Proto.Response
import Pcloud.Proto.ResponseGrammar
import Pcloud.Proto.ResponseLimits
import Pcloud.Proto.ResponseParser
import Pcloud.Proto.ResumableDownload
import Pcloud.Resilience.BandwidthPacer
import Pcloud.Resilience.CircuitBreaker
import Pcloud.Resilience.GlobalBudget
import Pcloud.Resilience.HttpDate
import Pcloud.Resilience.RateLimit
import Pcloud.Resilience.RequestBound
import Pcloud.Resilience.Retry
import Pcloud.Resilience.Transport
import Pcloud.Store.Audit
import Pcloud.Store.AuditChain
import Pcloud.Store.AuditRebuild
import Pcloud.Store.AuditWriters
import Pcloud.Store.FileMetadata
import Pcloud.Store.MigrationRestart
import Pcloud.Store.Migrations
import Pcloud.Store.SyncGraph
