import AeordbSync.Library.Prefixes
import AeordbSync.Library.Effect
import AeordbSync.Library.Characters
import AeordbSync.Library.OsPath
import AeordbSync.Library.FileSystem
import AeordbSync.Library.FileCalls
import AeordbSync.Library.Canonical
import AeordbSync.Library.Confinement
import AeordbSync.Library.Persisted
import AeordbSync.Library.Runs
import AeordbSync.Library.Interference
import AeordbSync.Seen
import AeordbSync.Library.Locks
import AeordbSync.Library.Simulation
import AeordbSync.Library.Json
import AeordbSync.Library.Grouping
import AeordbSync.Library.Newest
import AeordbSync.Errors
import AeordbSync.Relationships
import AeordbSync.Hierarchy
import AeordbSync.Paths
import AeordbSync.Metadata
import AeordbSync.Remote
import AeordbSync.World
import AeordbSync.Push.Batch
import AeordbSync.Push.Upload
import AeordbSync.Push.Flush
import AeordbSync.ContentType
import AeordbSync.Push.Scan
import AeordbSync.Rules
import AeordbSync.Push.UploadRules
import AeordbSync.Push.Sync
import AeordbSync.Push.SkipTruth
import AeordbSync.Push.Frame
import AeordbSync.Push.SyncFrame
import AeordbSync.Push.ScanRules
import AeordbSync.Push.WalkRules
import AeordbSync.Push.RunRules
import AeordbSync.Push.Focus
import AeordbSync.Push.FocusFlush
import AeordbSync.Push.FocusPrepare
import AeordbSync.Push.FocusRequest
import AeordbSync.Push.FocusFiles
import AeordbSync.Push.FocusTail
import AeordbSync.Push.FocusRun
import AeordbSync.Push.RunPaths
import AeordbSync.Push.Truth
import AeordbSync.Reference
import AeordbSync.Push.DeleteSafety
import AeordbSync.Push.Completeness
import AeordbSync.Push.Migration
import AeordbSync.Server.Settings
import AeordbSync.Configuration.Store
import AeordbSync.Configuration.Atomicity
import AeordbSync.Configuration.References
import AeordbSync.State.Engine
import AeordbSync.State.Memory
import AeordbSync.State.FileMetas
import AeordbSync.State.Slots
import AeordbSync.State.Codec
import AeordbSync.State.Denotes
import AeordbSync.State.Reading
import AeordbSync.State.Writing
import AeordbSync.State.Removing
import AeordbSync.State.Refinement
import AeordbSync.State.Faults
import AeordbSync.Configuration.Rerooting
import AeordbSync.Server.Model
import AeordbSync.Server.Accounts
import AeordbSync.Server.Discipline
import AeordbSync.Server.Running
import AeordbSync.Server.Execution
import AeordbSync.Update.Manifest
import AeordbSync.Update.Apply
import AeordbSync.Update.Requests
import AeordbSync.Server.Copies
import AeordbSync.Server.Books
import AeordbSync.Server.Currency
import AeordbSync.Server.Reset
import AeordbSync.Server.Chains
import AeordbSync.Library.Url
import AeordbSync.Addressing
import AeordbSync.Push.Transfer
import AeordbSync.Push.TransferRules
import AeordbSync.Pull.Plan
import AeordbSync.Pull.Assemble
import AeordbSync.Pull.Sync
import AeordbSync.Pull.Interference
import AeordbSync.Pull.Rules
import AeordbSync.Pull.Frame
import AeordbSync.Pull.Deletion
import AeordbSync.Pull.LiteSkip
import AeordbSync.Pull.Containment
import AeordbSync.Isolation
import AeordbSync.Activity.Log
import AeordbSync.Activity.Rules
import AeordbSync.Activity.History
import AeordbSync.Activity.Latest
import AeordbSync.Activity.Writers
import AeordbSync.Credentials.Client
import AeordbSync.Credentials.Redirects
import AeordbSync.Credentials.TokenCache
import AeordbSync.Routes.Ranges
import AeordbSync.Routes.RemoteFiles
import AeordbSync.Routes.LocalFiles
import AeordbSync.Library.Firsts
import AeordbSync.Push.Plans
import AeordbSync.Push.Cuts
import AeordbSync.Push.Batching
import AeordbSync.Watcher.Coalescing
import AeordbSync.Push.Delivery
import AeordbSync.Library.Neighbours
import AeordbSync.Pull.Partial
import AeordbSync.Pull.Leftovers
import AeordbSync.Pull.Content
import AeordbSync.Library.Utf8
import AeordbSync.Library.Framing
import AeordbSync.Events.Listener
import AeordbSync.Events.Chunking
import AeordbSync.Library.Words
import AeordbSync.Push.Decisions
import AeordbSync.Library.MixedOrder
import AeordbSync.Update.Versions
import AeordbSync.Push.Symlinks
import AeordbSync.Routes.RemotePaths
import AeordbSync.Routes.JsonPaths
import AeordbSync.Routes.RangeRules
import AeordbSync.Library.Greatest
import AeordbSync.Routes.Rollup
import AeordbSync.Push.Correspondence
import AeordbSync.Library.JsonText
import AeordbSync.Push.Estimate
import AeordbSync.Credentials.Upgrades
import AeordbSync.Push.Accounting
import AeordbSync.Pull.Roots
import AeordbSync.Turns
import AeordbSync.Library.Form
import AeordbSync.Queries
import AeordbSync.Library.MergePatch
import AeordbSync.Preferences
import AeordbSync.Library.Backoff
import AeordbSync.Replication
import AeordbSync.Runner.Loop
import AeordbSync.Runner.Schedule
import AeordbSync.Pull.Remote
import AeordbSync.Runner.Directions
import AeordbSync.Push.StoreFrame
import AeordbSync.Push.Settled
import AeordbSync.Library.Loops
import AeordbSync.Library.Touched
import AeordbSync.Pull.Arrival
import AeordbSync.Replicas
