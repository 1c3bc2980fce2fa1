import Mathlib.Data.Finset.Basic
import Mathlib.Tactic.Common

/-!
# Collaboration engine: domain model and configuration

The data of `internal/collaboration/types` and `internal/collaboration/config`.

Versions and counters are `Nat` (counters that start at zero and only grow).  Durations are `Int` nanoseconds.
Timestamps and participants are left out: nothing modelled here reads them.
-/

namespace Collab

abbrev Bytes := List UInt8

/-! ## document lifecycle -/

inductive DocumentState where
  | created
  | initialized
  | active
  | dirty
  | snapshotPending
  | persisted
  | recovered
  | archived
  | destroyed
deriving DecidableEq

def canTransition : DocumentState → DocumentState → Bool
  | .created, t => t == .initialized || t == .destroyed
  | .initialized, t => t == .active || t == .archived || t == .destroyed
  | .active, t => t == .dirty || t == .archived || t == .snapshotPending || t == .destroyed
  | .dirty, t =>
    t == .snapshotPending || t == .persisted || t == .active || t == .archived || t == .destroyed
  | .snapshotPending, t =>
    t == .persisted || t == .active || t == .dirty || t == .destroyed
  | .persisted, t => t == .active || t == .dirty || t == .archived || t == .destroyed
  | .recovered, t =>
    t == .active || t == .initialized || t == .archived || t == .destroyed
  | .archived, t => t == .recovered || t == .destroyed
  | .destroyed, _ => false

/-- a snapshot can be started from `Active` and `Dirty` only -/
theorem canTransition_pending (st : DocumentState) :
    canTransition st .snapshotPending = true ↔ st = .active ∨ st = .dirty := by
  cases st <;> decide

/-! ## records -/

inductive SnapshotKind where
  | full
  | incremental
deriving DecidableEq

structure DocumentMetadata where
  id : String
  roomID : String
  filePath : String

structure Update where
  id : String
  docID : String
  data : Bytes
  version : Nat

structure Snapshot where
  id : String
  docID : String
  kind : SnapshotKind
  stateVector : Bytes
  data : Bytes
  compressed : Bool
  baseVersion : Nat
  version : Nat
  size : Nat

structure SnapshotMeta where
  lastSnapshotID : String := ""
  lastSnapshotKind : SnapshotKind := .full
  lastSnapshotVersion : Nat := 0
  snapshotCount : Nat := 0

structure RecoveryMeta where
  recovered : Bool := false
  fromSnapshotID : String := ""
  updatesReplayed : Nat := 0
  recoveredVersion : Nat := 0

structure PersistenceMeta where
  lastPersistedVersion : Nat := 0
  pendingUpdates : Nat := 0

/-- the sentinel errors of `types` that the modelled operations return, and the error of a failed
storage call -/
inductive Err where
  | storage
  | invalidDocumentState
  | documentNotFound
  | documentSizeExceeded
  | updateSizeExceeded
  | malformedUpdate
  | corruptedUpdate
  | snapshotNotFound
  | snapshotFailure
  | recoveryFailure
  | consistencyCheckFailed
  | registryConflict
deriving DecidableEq

/-! ## configuration -/

structure Config where
  snapshotInterval : Int
  snapshotEditsThreshold : Int
  incrementalSnapshotThreshold : Int
  retentionCount : Int
  maxDocumentSize : Int
  maxUpdateSize : Int
  maxPendingUpdatesLimit : Int
  batchSize : Int
  syncTimeout : Int
  recoveryTimeout : Int
  backgroundSaveInterval : Int
  gcInterval : Int
  idleTimeout : Int
  enableGC : Bool
  enableCompression : Bool
  compressionThreshold : Int
deriving DecidableEq

def second : Int := 1000000000

def Config.default : Config where
  snapshotInterval := 5 * second
  snapshotEditsThreshold := 100
  incrementalSnapshotThreshold := 10
  retentionCount := 5
  maxDocumentSize := 16 * 1024 * 1024
  maxUpdateSize := 1 * 1024 * 1024
  maxPendingUpdatesLimit := 1000
  batchSize := 256
  syncTimeout := 10 * second
  recoveryTimeout := 30 * second
  backgroundSaveInterval := 1 * second
  gcInterval := 30 * second
  idleTimeout := 15 * 60 * second
  enableGC := true
  enableCompression := true
  compressionThreshold := 4 * 1024

def orDefault (v d : Int) : Int := if v ≤ 0 then d else v

theorem orDefault_pos {v d : Int} (hd : 0 < d) : 0 < orDefault v d := by
  unfold orDefault
  split <;> omega

/-- normalise the zero values, reject the nonsensical ones (`Config.Validate`) -/
def Config.validate (c : Config) : Except String Config :=
  let d := Config.default
  let c := { c with
    snapshotInterval := orDefault c.snapshotInterval d.snapshotInterval
    snapshotEditsThreshold := orDefault c.snapshotEditsThreshold d.snapshotEditsThreshold }
  if c.incrementalSnapshotThreshold < 0 then
    .error "incremental_snapshot_threshold must be >= 0"
  else
    let c := { c with
      retentionCount := orDefault c.retentionCount d.retentionCount
      maxDocumentSize := orDefault c.maxDocumentSize d.maxDocumentSize
      maxUpdateSize := orDefault c.maxUpdateSize d.maxUpdateSize }
    if c.maxUpdateSize > c.maxDocumentSize then
      .error "max_update_size must be <= max_document_size"
    else
      .ok { c with
        maxPendingUpdatesLimit := orDefault c.maxPendingUpdatesLimit d.maxPendingUpdatesLimit
        batchSize := orDefault c.batchSize d.batchSize
        syncTimeout := orDefault c.syncTimeout d.syncTimeout
        recoveryTimeout := orDefault c.recoveryTimeout d.recoveryTimeout
        backgroundSaveInterval := orDefault c.backgroundSaveInterval d.backgroundSaveInterval
        gcInterval := orDefault c.gcInterval d.gcInterval
        idleTimeout := orDefault c.idleTimeout d.idleTimeout
        compressionThreshold := orDefault c.compressionThreshold d.compressionThreshold }

structure Config.Valid (c : Config) : Prop where
  incremental : 0 ≤ c.incrementalSnapshotThreshold
  retention : 1 ≤ c.retentionCount
  document : 1 ≤ c.maxDocumentSize
  update : 1 ≤ c.maxUpdateSize
  sizes : c.maxUpdateSize ≤ c.maxDocumentSize
  pending : 1 ≤ c.maxPendingUpdatesLimit
  compression : 1 ≤ c.compressionThreshold

theorem Config.validate_valid {c c' : Config} (h : c.validate = .ok c') : c'.Valid := by
  have pos : ∀ {v d : Int}, 0 < d → 1 ≤ orDefault v d := fun hd => orDefault_pos hd
  unfold Config.validate at h
  simp only at h
  split at h
  · cases h
  split at h
  · cases h
  cases h
  exact ⟨by simp only; omega, pos (by decide), pos (by decide), pos (by decide),
    by simp only; omega, pos (by decide), pos (by decide)⟩

theorem Config.validate_default : Config.default.validate = .ok Config.default := by
  decide

end Collab
