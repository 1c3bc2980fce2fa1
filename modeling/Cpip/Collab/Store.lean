import Cpip.Collab.Engine

/-!
# Collaboration engine: the repository and the live registry

An entry refers to its document by a handle (the pointer `*yjs.DocWrapper` of the source).
-/

namespace Collab

open Function (update update_of_ne)

/-! ## repository -/

structure Repository where
  metadata : String → Option DocumentMetadata
  updates : String → List Update
  snapshots : String → List Snapshot

namespace Repository

def empty : Repository := ⟨fun _ => none, fun _ => [], fun _ => []⟩

variable (r : Repository) (docID : String)

def getMetadata : Except Err DocumentMetadata :=
  match r.metadata docID with
  | none => .error .documentNotFound
  | some m => .ok m

def saveMetadata (m : DocumentMetadata) : Repository :=
  { r with metadata := update r.metadata m.id (some m) }

def saveUpdate (u : Update) : Repository :=
  { r with updates := update r.updates u.docID (r.updates u.docID ++ [u]) }

def getUpdates (sinceVersion : Nat) : List Update :=
  (r.updates docID).filter fun u => sinceVersion < u.version

def deleteUpdates (beforeVersion : Nat) : Repository :=
  { r with
    updates := update r.updates docID ((r.updates docID).filter fun u => beforeVersion ≤ u.version) }

def saveSnapshot (s : Snapshot) : Repository :=
  { r with snapshots := update r.snapshots s.docID (r.snapshots s.docID ++ [s]) }

def getLatestSnapshot : Except Err Snapshot :=
  match (r.snapshots docID).getLast? with
  | none => .error .snapshotNotFound
  | some s => .ok s

def getSnapshots : Except Err (List Snapshot) :=
  if (r.snapshots docID).length = 0 then .error .snapshotNotFound else .ok (r.snapshots docID)

variable (keepCount : Nat)

def pruneSnapshots : Repository :=
  if (r.snapshots docID).length ≤ keepCount then r
  else
    { r with
      snapshots := update r.snapshots docID ((r.snapshots docID).drop ((r.snapshots docID).length - keepCount)) }

def deleteDocument : Repository :=
  ⟨update r.metadata docID none, update r.updates docID [], update r.snapshots docID []⟩

theorem pruneSnapshots_snapshots : (r.pruneSnapshots docID keepCount).snapshots docID
      = (r.snapshots docID).drop ((r.snapshots docID).length - keepCount) := by
  unfold pruneSnapshots
  split
  · rename_i h
    rw [Nat.sub_eq_zero_of_le h, List.drop_zero]
  · simp

theorem pruneSnapshots_updates :
    (r.pruneSnapshots docID keepCount).updates = r.updates := by
  unfold pruneSnapshots
  split <;> rfl

theorem pruneSnapshots_metadata :
    (r.pruneSnapshots docID keepCount).metadata = r.metadata := by
  unfold pruneSnapshots
  split <;> rfl

theorem pruneSnapshots_other (docID d : String) (keepCount : Nat)
    (h : d ≠ docID) : (r.pruneSnapshots docID keepCount).snapshots d = r.snapshots d := by
  unfold pruneSnapshots
  split
  · rfl
  · simp [update_of_ne h]

end Repository

/-! ## live registry -/

structure DocumentEntry where
  id : String
  roomID : String
  filePath : String
  state : DocumentState
  doc : Nat
  version : Nat := 0
  editCount : Nat := 0
  isDirty : Bool := false
  snapshot : SnapshotMeta := {}
  recovery : RecoveryMeta := {}
  persistence : PersistenceMeta := {}

abbrev Registry := String → Option DocumentEntry

variable (r : Registry) (docID : String) (e : DocumentEntry)

namespace Registry

def register : Except Err Registry :=
  match r e.id with
  | some _ => .error .registryConflict
  | none => .ok (update r e.id (some e))

def unregister : Registry := update r docID none

def transition (t : DocumentState) : Except Err Registry :=
  match r docID with
  | none => .error .documentNotFound
  | some e =>
    if canTransition e.state t then .ok (update r docID (some { e with state := t }))
    else .error .invalidDocumentState

end Registry

/-- the lifecycle moves of an edit: through `Active` to `Dirty` -/
def DocumentState.edited (st : DocumentState) : DocumentState :=
  let st := if st = .initialized ∨ st = .persisted ∨ st = .recovered then
      (if canTransition st .active then .active else st) else st
  if st = .active then (if canTransition st .dirty then .dirty else st) else st

def DocumentEntry.markEdited : DocumentEntry :=
  { e with
    version := e.version + 1
    editCount := e.editCount + 1
    isDirty := true
    persistence := { e.persistence with pendingUpdates := e.persistence.pendingUpdates + 1 }
    state := e.state.edited }

def DocumentEntry.recordSnapshot (snap : Snapshot) : DocumentEntry :=
  { e with
    snapshot :=
      { lastSnapshotID := snap.id
        lastSnapshotKind := snap.kind
        lastSnapshotVersion := snap.version
        snapshotCount := e.snapshot.snapshotCount + 1 }
    persistence := { lastPersistedVersion := snap.version, pendingUpdates := 0 }
    editCount := 0
    isDirty := false }

namespace Registry

def markEdited : Registry × Nat :=
  match r docID with
  | none => (r, 0)
  | some e => (update r docID (some e.markEdited), e.version + 1)

def recordSnapshot (snap : Snapshot) : Registry :=
  match r docID with
  | none => r
  | some e => update r docID (some (e.recordSnapshot snap))

end Registry

structure SnapshotPlan where
  doc : Nat
  version : Nat
  prev : SnapshotMeta

def Registry.planSnapshot : Option SnapshotPlan :=
  (r docID).map fun e => ⟨e.doc, e.version, e.snapshot⟩

theorem DocumentState.edited_pending (st : DocumentState) : st.edited = .snapshotPending ↔ st = .snapshotPending := by
  cases st <;> decide

/-- an edit makes a snapshot possible, unless the document is not yet initialised, is being
snapshotted or is gone -/
theorem DocumentState.edited_canTransition {st : DocumentState}
    (h : st = .initialized ∨ st = .active ∨ st = .dirty ∨ st = .persisted ∨ st = .recovered) :
    st.edited = .dirty := by
  rcases h with rfl | rfl | rfl | rfl | rfl <;> decide

theorem Registry.transition_eq {r r' : Registry} {docID : String} {t : DocumentState}
    (h : r.transition docID t = .ok r') : ∃ e, r docID = some e ∧ canTransition e.state t = true ∧
      r' = update r docID (some { e with state := t }) := by
  unfold Registry.transition at h
  split at h
  · cases h
  rename_i e he
  split at h
  · rename_i hc
    cases h
    exact ⟨e, he, hc, rfl⟩
  · cases h

theorem Registry.transition_ok {r : Registry} {docID : String} {e : DocumentEntry}
    {t : DocumentState} (he : r docID = some e) (hc : canTransition e.state t = true) :
    r.transition docID t = .ok (update r docID (some { e with state := t })) := by
  unfold Registry.transition
  rw [he]
  simp only [hc, if_true]

end Collab
