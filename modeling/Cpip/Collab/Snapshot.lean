import Cpip.Lib.Chain
import Cpip.Collab.Store

/-!
# Collaboration engine: snapshots and recovery

`internal/collaboration/snapshot` and `internal/collaboration/recovery`.
-/

namespace Collab

structure SnapshotManager where
  retentionCount : Nat
  incrementalThreshold : Nat
  compress : Bool
  compressionThreshold : Nat

def SnapshotManager.new (retentionCount incrementalThreshold : Int) (compress : Bool)
    (compressionThreshold : Int) : SnapshotManager where
  retentionCount := (if retentionCount ≤ 0 then 5 else retentionCount).toNat
  incrementalThreshold := (if incrementalThreshold < 0 then 0 else incrementalThreshold).toNat
  compress := compress
  compressionThreshold :=
    (if compressionThreshold ≤ 0 then 4 * 1024 else compressionThreshold).toNat

def Config.snapMgr (cfg : Config) : SnapshotManager :=
  .new cfg.retentionCount cfg.incrementalSnapshotThreshold cfg.enableCompression cfg.compressionThreshold

theorem Config.snapMgr_retention_pos (cfg : Config) : 1 ≤ cfg.snapMgr.retentionCount := by
  show 1 ≤ (if cfg.retentionCount ≤ 0 then (5 : Int) else cfg.retentionCount).toNat
  split <;> omega

theorem Config.snapMgr_retention {cfg : Config} (h : cfg.Valid) :
    cfg.snapMgr.retentionCount = cfg.retentionCount.toNat := by
  have := h.retention
  show (if cfg.retentionCount ≤ 0 then (5 : Int) else cfg.retentionCount).toNat = _
  rw [if_neg (by omega)]

theorem Config.snapMgr_incremental {cfg : Config} (h : cfg.Valid) :
    cfg.snapMgr.incrementalThreshold = cfg.incrementalSnapshotThreshold.toNat := by
  have := h.incremental
  show (if cfg.incrementalSnapshotThreshold < 0 then (0 : Int)
    else cfg.incrementalSnapshotThreshold).toNat = _
  rw [if_neg (by omega)]

def Snapshot.isFull (s : Snapshot) : Bool := s.kind == .full

/-! ## compression -/

/-- compress when enabled, eligible and shrinking; the flag says whether it did -/
def maybeCompress (Z : Gzip) (M : SnapshotManager) (data : Bytes) : Bytes × Bool :=
  if M.compress = false ∨ data.length < M.compressionThreshold then (data, false)
  else if (Z.deflate data).length ≥ data.length then (data, false)
  else (Z.deflate data, true)

def decompress (Z : Gzip) (s : Snapshot) : Option Bytes :=
  if s.compressed then Z.inflate s.data else some s.data

section
variable {Op : Type} [DecidableEq Op] (E : Engine Op) (Z : Gzip) (M : SnapshotManager)

/-! ## capture -/

variable (repo : Repository) (docID : String)

def SnapshotManager.plan (prev : SnapshotMeta) : SnapshotKind × Option E.Vector × Nat :=
  if M.incrementalThreshold = 0 ∨ prev.snapshotCount = 0 ∨ prev.lastSnapshotID = "" then
    (.full, none, 0)
  else if prev.snapshotCount % M.incrementalThreshold = 0 then (.full, none, 0)
  else
    match repo.getLatestSnapshot docID with
    | .error _ => (.full, none, 0)
    | .ok latest =>
      match E.decodeStateVector latest.stateVector with
      | none => (.full, none, 0)
      | some sv => (.incremental, some sv, latest.version)

def encodePayload (kind : SnapshotKind) (baseSV : Option E.Vector) (ops : Finset Op) : Bytes :=
  match kind with
  | .incremental => E.encode ops baseSV
  | .full => E.encode ops none

def SnapshotManager.describe (id docID : String) (kind : SnapshotKind) (stateVector raw : Bytes)
    (baseVersion version : Nat) : Snapshot :=
  let c := maybeCompress Z M raw
  { id := id, docID := docID, kind := kind, stateVector := stateVector, data := c.1,
    compressed := c.2, baseVersion := baseVersion, version := version, size := c.1.length }

def SnapshotManager.create (id docID : String) (ops : Finset Op)
    (version : Nat) (prev : SnapshotMeta) : Snapshot × Repository :=
  let p := M.plan E repo docID prev
  let raw := encodePayload E p.1 p.2.1 ops
  let snap := M.describe Z id docID p.1 (E.encodeVector ops) raw p.2.2 version
  (snap, (repo.saveSnapshot snap).pruneSnapshots docID M.retentionCount)

/-- payloads of the chain, version of the newest snapshot, ID of the oldest
(`Manager.Reconstruct`) -/
def SnapshotManager.reconstruct : Except Err (List Bytes × Nat × String) :=
  match repo.getSnapshots docID with
  | .error e => .error e
  | .ok snaps =>
    let chain := Chain.chain Snapshot.isFull snaps
    match chain.mapM (decompress Z) with
    | none => .error .snapshotFailure
    | some payloads =>
      match chain.head?, chain.getLast? with
      | some first, some newest => .ok (payloads, newest.version, first.id)
      | _, _ => .error .snapshotNotFound

/-! ## recovery -/

structure Recovered (Op : Type) where
  ops : Finset Op
  version : Nat
  fromSnapshotID : String
  snapshotPayloads : Nat
  updatesReplayed : Nat
  stateVector : Bytes

def applyAll (ops : Finset Op) : List Bytes → Option (Finset Op)
  | [] => some ops
  | u :: us => (E.applyUpdate ops u).bind fun ops' => applyAll ops' us

def replay (ops : Finset Op) (version : Nat) : List Update → Option (Finset Op × Nat)
  | [] => some (ops, version)
  | u :: us =>
    (E.applyUpdate ops u.data).bind fun ops' =>
      replay ops' (if u.version > version then u.version else version) us

def verify (stateVector : Bytes) (version snapVersion : Nat) : Bool :=
  (E.decodeStateVector stateVector).isSome && decide (snapVersion ≤ version)

def recoverTail (ops : Finset Op) (payloads snapVersion : Nat) (fromID : String)
    (updates : List Update) : Except Err (Recovered Op) :=
  if payloads = 0 ∧ updates.length = 0 then .error .documentNotFound
  else
    match replay E ops snapVersion (updates.insertionSort fun a b => a.version ≤ b.version) with
    | none => .error .recoveryFailure
    | some (ops', version) =>
      if verify E (E.encodeVector ops') version snapVersion then
        .ok ⟨ops', version, fromID, payloads, updates.length, E.encodeVector ops'⟩
      else .error .consistencyCheckFailed

structure RecoveryBase (Op : Type) where
  ops : Finset Op
  payloads : Nat
  version : Nat
  fromID : String

def recoverBase : Except Err (RecoveryBase Op) :=
  match SnapshotManager.reconstruct Z repo docID with
  | .ok (payloads, snapVersion, fromID) =>
    match applyAll E ∅ payloads with
    | none => .error .recoveryFailure
    | some ops => .ok ⟨ops, payloads.length, snapVersion, fromID⟩
  | .error .snapshotNotFound => .ok ⟨∅, 0, 0, ""⟩
  | .error _ => .error .recoveryFailure

def recoverDocument : Except Err (Recovered Op) :=
  match recoverBase E Z repo docID with
  | .error err => .error err
  | .ok b => recoverTail E b.ops b.payloads b.version b.fromID (repo.getUpdates docID b.version)

end

end Collab
