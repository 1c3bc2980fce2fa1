import Cpip.Awareness.Converge
import Cpip.Awareness.Manager
import Cpip.Awareness.Registry
import Cpip.Awareness.Sweep
import Cpip.Awareness.Types
import Cpip.Cache.Behind
import Cpip.Cache.Bulk
import Cpip.Cache.Converge
import Cpip.Cache.Emulator
import Cpip.Cache.Glob
import Cpip.Cache.Keys
import Cpip.Cache.Manager
import Cpip.Cache.Presence
import Cpip.Cache.Reload
import Cpip.Cache.Sessions
import Cpip.Cache.SignOut
import Cpip.Cache.Subscribe
import Cpip.Cache.Updates
import Cpip.Collab.Calls
import Cpip.Collab.Calm
import Cpip.Collab.Content
import Cpip.Collab.Durable
import Cpip.Collab.Engine
import Cpip.Collab.Interleave
import Cpip.Collab.Manager
import Cpip.Collab.Open
import Cpip.Collab.Race
import Cpip.Collab.Refused
import Cpip.Collab.Reopen
import Cpip.Collab.Retention
import Cpip.Collab.Snapshot
import Cpip.Collab.Steps
import Cpip.Collab.Store
import Cpip.Collab.Types
import Cpip.Configuration.Overrides
import Cpip.Configuration.Resolve
import Cpip.Connection.Manager
import Cpip.Connection.Shutdown
import Cpip.Coord.Backend
import Cpip.Coord.Entropy
import Cpip.Coord.Leader
import Cpip.Coord.Leases
import Cpip.Coord.Locks
import Cpip.Coord.Mutate
import Cpip.Coord.Redis
import Cpip.Coord.Registry
import Cpip.Coord.Replication
import Cpip.Coord.Sync
import Cpip.Coord.Tokens
import Cpip.Coord.Validity
import Cpip.Deployment.History
import Cpip.Exec.Admission
import Cpip.Exec.Job
import Cpip.Exec.Leftover
import Cpip.Exec.Output
import Cpip.Exec.Persist
import Cpip.Exec.Registry
import Cpip.Exec.Retries
import Cpip.Exec.Steps
import Cpip.Exec.Streaming
import Cpip.Lib.Chain
import Cpip.Lib.Code
import Cpip.Lib.Debt
import Cpip.Lib.Delim
import Cpip.Lib.Drain
import Cpip.Lib.Expiry
import Cpip.Lib.Feed
import Cpip.Lib.Fresh
import Cpip.Lib.Index
import Cpip.Lib.Linear
import Cpip.Lib.Lww
import Cpip.Lib.Outline
import Cpip.Lib.Overwrite
import Cpip.Lib.Pool
import Cpip.Lib.Repay
import Cpip.Lib.Run
import Cpip.Lib.Versions
import Cpip.Lib.Writeback
import Cpip.Observability.Health
import Cpip.Observability.Tracing
import Cpip.Queue.Attempts
import Cpip.Queue.Ceiling
import Cpip.Queue.Cursor
import Cpip.Queue.Discard
import Cpip.Queue.Effects
import Cpip.Queue.Emulator
import Cpip.Queue.Faults
import Cpip.Queue.Held
import Cpip.Queue.History
import Cpip.Queue.Replay
import Cpip.Queue.Steps
import Cpip.Queue.Stream
import Cpip.Queue.Types
import Cpip.Reliability.Breaker
import Cpip.Reliability.PoolBulkhead
import Cpip.Reliability.PoolWorkers
import Cpip.Reliability.Protect
import Cpip.Reliability.SlidingWindow
import Cpip.Rooms.Bus
import Cpip.Rooms.Events
import Cpip.Rooms.Janitor
import Cpip.Rooms.Manager
import Cpip.Rooms.Ownership
import Cpip.Rooms.Persist
import Cpip.Rooms.Room
import Cpip.Rooms.Waiting
import Cpip.Sandbox.Isolation
import Cpip.Sandbox.Lifecycle
import Cpip.Sandbox.Steps
import Cpip.Sandbox.Teardown
import Cpip.Sandbox.Timeout
import Cpip.Storage.Artifact
import Cpip.Storage.Config
import Cpip.Storage.Dedup
import Cpip.Storage.Download
import Cpip.Storage.Effects
import Cpip.Storage.Hold
import Cpip.Storage.Lineage
import Cpip.Storage.Manager
import Cpip.Storage.Memory
import Cpip.Storage.Names
import Cpip.Storage.Records
import Cpip.Storage.Served
import Cpip.Storage.States
import Cpip.Storage.Undelete
import Cpip.Storage.Walk
import Cpip.Storage.Watch
