import Cpip.Collab.Content

/-!
# Collaboration engine: the manager, one call at a time

The operations of `internal/collaboration/manager.go` as functions on the whole state of the engine, for a
repository whose calls succeed.

* `Call`, `Event`, `History.step`  the calls as data, and one call after the other.

Events, metrics, the update observer and the deadlines of the contexts are left out.
-/

namespace Collab

/-- live registry, repository, the documents in memory and the two sources of fresh names -/
structure State (Op : Type) where
  registry : Registry
  repo : Repository
  docs : Nat → Doc Op
  nextDoc : Nat
  nextID : Nat

def State.init (Op : Type) : State Op :=
  ⟨fun _ => none, .empty, fun _ => ⟨∅, false⟩, 0, 0⟩

def newID (pfx : String) (n : Nat) : String := pfx ++ "-" ++ toString n

theorem newID_ne (pfx : String) (n : Nat) : newID pfx n ≠ "" := by
  intro h
  have := congrArg String.length h
  simp [newID] at this

section
variable {Op : Type} [DecidableEq Op] (s : State Op)

def State.alloc (ops : Finset Op) : State Op :=
  { s with
    docs := Function.update s.docs s.nextDoc ⟨ops, false⟩
    nextDoc := s.nextDoc + 1 }

def State.destroy (h : Nat) : State Op :=
  { s with
    docs := Function.update s.docs h { s.docs h with destroyed := true } }

def State.ops (s : State Op) (h : Nat) : Finset Op := (s.docs h).ops

variable (E : Engine Op) (Z : Gzip) (cfg : Config)

/-! ## opening -/

variable (docID roomID filePath : String)

def recoveredEntry (h : Nat) (r : Recovered Op) : DocumentEntry :=
  { id := docID, roomID := roomID, filePath := filePath, state := .recovered, doc := h,
    version := r.version,
    recovery :=
      { recovered := true, fromSnapshotID := r.fromSnapshotID,
        updatesReplayed := r.updatesReplayed, recoveredVersion := r.version } }

def createdEntry (h : Nat) : DocumentEntry :=
  { id := docID, roomID := roomID, filePath := filePath, state := .created, doc := h }

/-- register the entry of the document just allocated and move it to `t`; a refused registration
releases the document -/
def State.publish (e : DocumentEntry) (t : DocumentState) : Except Err Nat × State Op :=
  match s.registry.register e with
  | .error err => (.error err, s.destroy e.doc)
  | .ok reg =>
    match reg.transition e.id t with
    | .error err => (.error err, { s with registry := reg })
    | .ok reg' => (.ok e.doc, { s with registry := reg' })

def recoverInto (s : State Op) (docID roomID filePath : String) : Except Err Nat × State Op :=
  match recoverDocument E Z s.repo docID with
  | .error err => (.error err, s)
  | .ok r => (s.alloc r.ops).publish (recoveredEntry docID roomID filePath s.nextDoc r) .active

def createNew : Except Err Nat × State Op :=
  let s := { s with repo := s.repo.saveMetadata ⟨docID, roomID, filePath⟩ }
  (s.alloc ∅).publish (createdEntry docID roomID filePath s.nextDoc) .initialized

def getOrCreateDocument (s : State Op) (docID roomID filePath : String) : Except Err Nat × State Op :=
  match s.registry docID with
  | some e => (.ok e.doc, s)
  | none =>
    match s.repo.getMetadata docID with
    | .ok _ => recoverInto E Z s docID roomID filePath
    | .error _ => createNew s docID roomID filePath

/-! ## snapshots -/

/-- steps after the capture: prune the log, record the snapshot, finish the transition -/
def State.persist (docID : String) (snap : Snapshot) : Except Err Unit × State Op :=
  let s := { s with
    repo := s.repo.deleteUpdates docID (snap.version + 1)
    registry := s.registry.recordSnapshot docID snap }
  match s.registry.transition docID .persisted with
  | .error err => (.error err, s)
  | .ok reg => (.ok (), { s with registry := reg })

def saveSnapshot (s : State Op) (docID : String) : Except Err Unit × State Op :=
  match s.registry.planSnapshot docID with
  | none => (.error .documentNotFound, s)
  | some plan =>
    match s.registry.transition docID .snapshotPending with
    | .error err => (.error err, s)
    | .ok reg =>
      let c := cfg.snapMgr.create E Z s.repo (newID "snap" s.nextID) docID (s.ops plan.doc) plan.version plan.prev
      State.persist { s with registry := reg, repo := c.2, nextID := s.nextID + 1 } docID c.1

/-! ## edits -/

def mustFlush (s : State Op) (docID : String) : Bool :=
  match s.registry docID with
  | none => false
  | some e => decide (cfg.maxPendingUpdatesLimit ≤ (e.persistence.pendingUpdates : Int))

def State.logUpdate (docID : String) (update : Bytes) : State Op :=
  let m := s.registry.markEdited docID
  { s with
    registry := m.1
    repo := s.repo.saveUpdate ⟨newID "up" s.nextID, docID, update, m.2⟩
    nextID := s.nextID + 1 }

def tryApply (ops : Finset Op) (update : Bytes) : Except Err (Finset Op) :=
  if (E.size ops : Int) > cfg.maxDocumentSize then .error .documentSizeExceeded
  else
    match E.applyUpdate ops update with
    | none => .error .corruptedUpdate
    | some ops' => .ok ops'

def checkUpdate (update : Bytes) : Except Err Unit :=
  if update.length = 0 then .error .malformedUpdate
  else if (update.length : Int) > cfg.maxUpdateSize then .error .updateSizeExceeded
  else .ok ()

def applyIncrementalUpdate (s : State Op) (docID : String) (update : Bytes) : Except Err Unit × State Op :=
  match checkUpdate cfg update with
  | .error err => (.error err, s)
  | .ok _ =>
    match s.registry docID with
    | none => (.error .documentNotFound, s)
    | some e =>
      match tryApply E cfg (s.ops e.doc) update with
      | .error err => (.error err, s)
      | .ok ops =>
        let s := { s with
          docs := Function.update s.docs e.doc { s.docs e.doc with ops := ops } }
        let s := s.logUpdate docID update
        -- a failed flush is only logged
        if mustFlush cfg s docID then (.ok (), (saveSnapshot E Z cfg s docID).2) else (.ok (), s)

/-! ## unloading and deleting -/

def State.unload (docID : String) : Except Err Unit × State Op :=
  match s.registry.transition docID .archived with
  | .error err => (.error err, s)
  | .ok reg =>
    match reg docID with
    | none => (.ok (), { s with registry := reg })
    | some e => (.ok (), State.destroy { s with registry := reg.unregister docID } e.doc)

def archiveDocument (s : State Op) (docID : String) : Except Err Unit × State Op :=
  match s.registry docID with
  | none => (.error .documentNotFound, s)
  | some e =>
    if e.isDirty then
      match saveSnapshot E Z cfg s docID with
      | (.error err, s) => (.error err, s)
      | (.ok _, s) => s.unload docID
    else s.unload docID

def deleteDocument (docID : String) : Except Err Unit × State Op :=
  let s := match s.registry docID with
    | none => s
    | some e => State.destroy { s with registry := s.registry.unregister docID } e.doc
  (.ok (), { s with repo := s.repo.deleteDocument docID })

def restart : State Op := { s with registry := fun _ => none }

/-! ## runs of calls -/

inductive Call where
  | getOrCreate (docID roomID filePath : String)
  | apply (docID : String) (update : Bytes)
  | save (docID : String)
  | archive (docID : String)
  | delete (docID : String)

/-- the outcome of one call, with the document it returns if it opens one, and the state after
it -/
def State.call (s : State Op) : Call → Except Err (Option Nat) × State Op
  | .getOrCreate d r f => let x := getOrCreateDocument E Z s d r f; (x.1.map some, x.2)
  | .apply d u => let x := applyIncrementalUpdate E Z cfg s d u; (x.1.map fun _ => none, x.2)
  | .save d => let x := saveSnapshot E Z cfg s d; (x.1.map fun _ => none, x.2)
  | .archive d => let x := archiveDocument E Z cfg s d; (x.1.map fun _ => none, x.2)
  | .delete d => let x := deleteDocument s d; (x.1.map fun _ => none, x.2)

/-- what happens to the engine: a call, or the end of the process -/
inductive Event where
  | call (c : Call)
  | restart

theorem isOk_map {α β : Type} (f : α → β) (x : Except Err α) : (x.map f).isOk = x.isOk := by
  cases x <;> rfl

structure History (Op : Type) where
  state : State Op
  accepted : List (String × Bytes)

def History.init (Op : Type) : History Op := ⟨State.init Op, []⟩

/-- the accepted updates after a call that returned no error; a deleted document has none -/
def Call.note (acc : List (String × Bytes)) : Call → List (String × Bytes)
  | .apply d u => (d, u) :: acc
  | .delete d => acc.filter fun p => p.1 ≠ d
  | _ => acc

def History.step (h : History Op) : Event → Option (History Op)
  | .call c =>
    let x := h.state.call E Z cfg c
    some ⟨x.2, if x.1.isOk then c.note h.accepted else h.accepted⟩
  | .restart => some ⟨Collab.restart h.state, h.accepted⟩

end

end Collab
