import Cpip.Collab.Manager

/-!
# Collaboration engine: what each call of the manager does

One inversion lemma per operation (`saveSnapshot_cases`, `applyIncrementalUpdate_cases`, …), with everything the call
may do to the state.  The lemmas about `saved`, `edited`, `unloaded` and `opened` read their fields back.
-/

set_option linter.unusedSectionVars false

namespace Collab

open Registry

open Function (update_idem update_of_ne update_self)

section
variable {Op : Type} [DecidableEq Op] (E : Engine Op) (Z : Gzip) (cfg : Config)

/-! ## snapshots -/

variable (s : State Op) (docID : String) (e : DocumentEntry)

def captured : Snapshot :=
  (cfg.snapMgr.create E Z s.repo (newID "snap" s.nextID) docID (s.ops e.doc) e.version e.snapshot).1

def saved : State Op :=
  let snap := captured E Z cfg s docID e
  { s with
    repo := ((s.repo.saveSnapshot snap).pruneSnapshots docID
      cfg.snapMgr.retentionCount).deleteUpdates docID (snap.version + 1)
    registry := Function.update s.registry docID (some { e.recordSnapshot snap with state := .persisted })
    nextID := s.nextID + 1 }

theorem saveSnapshot_cases : (∃ err, saveSnapshot E Z cfg s docID = (.error err, s) ∧
      ∀ e, s.registry docID = some e → ¬ (e.state = .active ∨ e.state = .dirty)) ∨
    ∃ e, s.registry docID = some e ∧ (e.state = .active ∨ e.state = .dirty) ∧
      saveSnapshot E Z cfg s docID = (.ok (), saved E Z cfg s docID e) := by
  cases he : s.registry docID with
  | none =>
    left
    refine ⟨.documentNotFound, ?_, by simp⟩
    unfold saveSnapshot planSnapshot
    rw [he]
    rfl
  | some e =>
    by_cases hc : canTransition e.state .snapshotPending = true
    · right
      refine ⟨e, rfl, (canTransition_pending e.state).mp hc, ?_⟩
      unfold saveSnapshot planSnapshot State.persist recordSnapshot
      simp only [he, Option.map_some, transition_ok he hc, update_self]
      rw [transition_ok (update_self ..) (by rfl)]
      simp only [update_idem]
      rfl
    · left
      refine ⟨.invalidDocumentState, ?_, ?_⟩
      · unfold saveSnapshot planSnapshot transition
        simp only [he, Option.map_some, if_neg hc]
      intro e' h'
      cases h'
      exact fun h => hc ((canTransition_pending e.state).mpr h)

theorem captured_version : (captured E Z cfg s docID e).version = e.version := rfl

theorem captured_kind : (captured E Z cfg s docID e).kind = (cfg.snapMgr.plan E s.repo docID e.snapshot).1 := rfl

theorem captured_read :
    readSnapshot E Z (captured E Z cfg s docID e) = some (payloadSet E (captured E Z cfg s docID e).kind
          (cfg.snapMgr.plan E s.repo docID e.snapshot).2.1 (s.ops e.doc)) := by
  rw [captured, SnapshotManager.create]
  simp only
  rw [readSnapshot_describe, decode_encodePayload]
  rfl

theorem saved_snapshots : (saved E Z cfg s docID e).repo.snapshots docID = kept cfg.snapMgr.retentionCount
          (s.repo.snapshots docID ++ [captured E Z cfg s docID e]) := by
  have h : (s.repo.saveSnapshot (captured E Z cfg s docID e)).snapshots docID
      = s.repo.snapshots docID ++ [captured E Z cfg s docID e] := by
    unfold Repository.saveSnapshot
    exact update_self ..
  show ((s.repo.saveSnapshot _).pruneSnapshots docID _).snapshots docID = _
  rw [Repository.pruneSnapshots_snapshots, h]
  rfl

theorem saved_updates : (saved E Z cfg s docID e).repo.updates docID
      = (s.repo.updates docID).filter fun u => e.version + 1 ≤ u.version := by
  show Function.update _ docID _ docID = _
  rw [update_self, Repository.pruneSnapshots_updates, captured_version]
  rfl

variable {docID : String}

theorem saved_snapshots_other {d : String} (h : d ≠ docID) :
    (saved E Z cfg s docID e).repo.snapshots d = s.repo.snapshots d := by
  show ((s.repo.saveSnapshot _).pruneSnapshots docID _).snapshots d = _
  rw [Repository.pruneSnapshots_other _ _ _ _ h]
  exact update_of_ne h ..

theorem saved_updates_other {d : String} (h : d ≠ docID) :
    (saved E Z cfg s docID e).repo.updates d = s.repo.updates d := by
  show Function.update _ docID _ d = _
  rw [update_of_ne h, Repository.pruneSnapshots_updates]
  rfl

theorem saved_metadata (docID : String) (e : DocumentEntry) :
    (saved E Z cfg s docID e).repo.metadata = s.repo.metadata := by
  show ((s.repo.saveSnapshot _).pruneSnapshots docID _).metadata = _
  rw [Repository.pruneSnapshots_metadata]
  rfl

theorem saved_ne_nil (docID : String) (e : DocumentEntry) :
    (saved E Z cfg s docID e).repo.snapshots docID ≠ [] := by
  rw [saved_snapshots]
  intro h0
  have := kept_getLast? cfg.snapMgr_retention_pos (s.repo.snapshots docID ++ [captured E Z cfg s docID e])
  rw [h0] at this
  simp at this

theorem Readable.saved (h : Readable E Z s.repo docID) : Readable E Z (saved E Z cfg s docID e).repo docID := by
  refine ⟨fun t ht => ?_, fun u hu => ?_⟩
  · rw [saved_snapshots] at ht
    rcases List.mem_append.mp (List.mem_of_mem_drop ht) with ht | ht
    · exact h.snaps t ht
    · rw [List.mem_singleton.mp ht, captured_read]
      rfl
  · rw [saved_updates] at hu
    exact h.log u (List.mem_of_mem_filter hu)

/-! ## edits -/

def edited (docID : String) (e : DocumentEntry) (update : Bytes) (ops : Finset Op) : State Op :=
  { s with
    docs := Function.update s.docs e.doc { s.docs e.doc with ops := ops }
    registry := Function.update s.registry docID (some e.markEdited)
    repo := s.repo.saveUpdate ⟨newID "up" s.nextID, docID, update, e.version + 1⟩
    nextID := s.nextID + 1 }

theorem edited_ops (docID : String) (e : DocumentEntry) (update : Bytes)
    (ops : Finset Op) : (edited s docID e update ops).ops e.doc = ops := by
  show (Function.update s.docs e.doc _ e.doc).ops = ops
  rw [update_self]

theorem edited_updates (docID : String) (e : DocumentEntry) (update : Bytes)
    (ops : Finset Op) : (edited s docID e update ops).repo.updates docID
      = s.repo.updates docID ++ [⟨newID "up" s.nextID, docID, update, e.version + 1⟩] :=
  update_self ..

theorem Readable.edited {update : Bytes} {o : Finset Op} (ops : Finset Op) (h : Readable E Z s.repo docID)
    (ho : E.decode update = some o) : Readable E Z (edited s docID e update ops).repo docID := by
  refine ⟨h.snaps, fun u hu => ?_⟩
  rw [edited_updates] at hu
  rcases List.mem_append.mp hu with hu | hu
  · exact h.log u hu
  · rw [List.mem_singleton.mp hu]
    simp [ho]

theorem tryApply_eq {ops ops' : Finset Op} {update : Bytes} (h : tryApply E cfg ops update = .ok ops') :
    ∃ o, E.decode update = some o ∧ ops' = ops ∪ o := by
  unfold tryApply at h
  split at h
  · cases h
  split at h
  · cases h
  rename_i o ho
  cases h
  exact Engine.applyUpdate_eq ho

variable {e : DocumentEntry}

theorem applyIncrementalUpdate_ok {s : State Op} {update : Bytes} {ops : Finset Op}
    (hc : checkUpdate cfg update = .ok ()) (he : s.registry docID = some e)
    (ht : tryApply E cfg (s.ops e.doc) update = .ok ops) : applyIncrementalUpdate E Z cfg s docID update =
      (.ok (), if mustFlush cfg (edited s docID e update ops) docID then
        (saveSnapshot E Z cfg (edited s docID e update ops) docID).2
      else edited s docID e update ops) := by
  unfold applyIncrementalUpdate
  simp only [hc, he, ht, State.logUpdate, markEdited]
  unfold edited
  split <;> rfl

theorem applyIncrementalUpdate_cases (docID : String) (update : Bytes) :
    (∃ err, applyIncrementalUpdate E Z cfg s docID update = (.error err, s)) ∨
    ∃ e o, s.registry docID = some e ∧ E.decode update = some o ∧
      let s' := edited s docID e update (s.ops e.doc ∪ o)
      (applyIncrementalUpdate E Z cfg s docID update = (.ok (), s') ∨
        applyIncrementalUpdate E Z cfg s docID update = (.ok (), (saveSnapshot E Z cfg s' docID).2)) := by
  cases hc : checkUpdate cfg update with
  | error err => exact .inl ⟨err, by unfold applyIncrementalUpdate; simp only [hc]⟩
  | ok _ =>
    cases he : s.registry docID with
    | none => exact .inl ⟨.documentNotFound, by unfold applyIncrementalUpdate; simp only [hc, he]⟩
    | some e =>
      cases ht : tryApply E cfg (s.ops e.doc) update with
      | error err => exact .inl ⟨err, by unfold applyIncrementalUpdate; simp only [hc, he, ht]⟩
      | ok ops =>
        obtain ⟨o, ho, rfl⟩ := tryApply_eq E cfg ht
        refine .inr ⟨e, o, rfl, ho, ?_⟩
        rw [applyIncrementalUpdate_ok E Z cfg hc he ht]
        split
        · exact .inr rfl
        · exact .inl rfl

/-! ## unloading -/

def unloaded (docID : String) (e : DocumentEntry) : State Op :=
  State.destroy { s with registry := Function.update s.registry docID none } e.doc

theorem unload_cases (he : s.registry docID = some e) :
    (∃ err, s.unload docID = (.error err, s) ∧ canTransition e.state .archived = false) ∨
      s.unload docID = (.ok (), unloaded s docID e) ∧ canTransition e.state .archived = true := by
  unfold State.unload
  by_cases hc : canTransition e.state .archived = true
  · right
    simp only [transition_ok he hc, update_self, unregister, update_idem]
    exact ⟨rfl, hc⟩
  · left
    refine ⟨.invalidDocumentState, ?_, by simpa using hc⟩
    unfold transition
    simp only [he, if_neg hc]

theorem archiveDocument_cases (docID : String) : (∃ err, archiveDocument E Z cfg s docID = (.error err, s)) ∨
    ∃ e, s.registry docID = some e ∧
      (e.isDirty = false ∧ archiveDocument E Z cfg s docID = (.ok (), unloaded s docID e) ∨
        e.isDirty = true ∧ (e.state = .active ∨ e.state = .dirty) ∧ archiveDocument E Z cfg s docID
          = (.ok (), unloaded (saved E Z cfg s docID e) docID
              { e.recordSnapshot (captured E Z cfg s docID e) with state := .persisted })) := by
  cases he : s.registry docID with
  | none =>
    left
    refine ⟨.documentNotFound, ?_⟩
    unfold archiveDocument
    rw [he]
  | some e =>
    unfold archiveDocument
    simp only [he]
    cases hd : e.isDirty with
    | false =>
      rcases unload_cases s he with ⟨err, h, -⟩ | ⟨h, -⟩
      · exact .inl ⟨err, by simpa using h⟩
      · exact .inr ⟨e, rfl, .inl ⟨hd, by simpa using h⟩⟩
    | true =>
      rcases saveSnapshot_cases E Z cfg s docID with ⟨err, h, -⟩ | ⟨e', he', hst, h⟩
      · exact .inl ⟨err, by simp [h]⟩
      cases he.symm.trans he'
      right
      refine ⟨e, rfl, .inr ⟨hd, hst, ?_⟩⟩
      simp only [if_true, h]
      have hr : (saved E Z cfg s docID e).registry docID
          = some { e.recordSnapshot (captured E Z cfg s docID e) with state := .persisted } :=
        update_self ..
      rcases unload_cases (saved E Z cfg s docID e) hr with ⟨err, -, hc⟩ | ⟨hu, -⟩
      · cases hc
      · exact hu

theorem archiveDocument_clean {s : State Op} (he : s.registry docID = some e) (hd : e.isDirty = false)
    (hc : canTransition e.state .archived = true) :
    archiveDocument E Z cfg s docID = (.ok (), unloaded s docID e) := by
  unfold archiveDocument
  simp only [he, hd]
  rcases unload_cases s he with ⟨err, -, hn⟩ | ⟨h, -⟩
  · rw [hc] at hn
    cases hn
  · simpa using h

theorem destroy_ops (s : State Op) (h k : Nat) : (s.destroy h).ops k = s.ops k := by
  unfold State.destroy State.ops
  by_cases hk : k = h
  · subst hk
    simp
  · simp [update_of_ne hk]

theorem deleteDocument_repo (docID : String) : (deleteDocument s docID).2.repo = s.repo.deleteDocument docID := by
  unfold deleteDocument
  cases s.registry docID <;> rfl

theorem deleteDocument_registry (docID d : String) :
    (deleteDocument s docID).2.registry d = if d = docID then none else s.registry d := by
  unfold deleteDocument
  by_cases hd : d = docID
  · subst hd
    cases he : s.registry d <;> simp [he, State.destroy, unregister]
  · cases he : s.registry docID <;> simp [hd, State.destroy, unregister]

theorem deleteDocument_docs (docID : String) : (deleteDocument s docID).2.nextDoc = s.nextDoc ∧
    ∀ k, (deleteDocument s docID).2.ops k = s.ops k := by
  unfold deleteDocument
  cases s.registry docID with
  | none => exact ⟨rfl, fun _ => rfl⟩
  | some e => exact ⟨rfl, destroy_ops { s with registry := s.registry.unregister docID } e.doc⟩

/-! ## opening -/

def opened (docID : String) (e : DocumentEntry) (ops : Finset Op) : State Op :=
  { s.alloc ops with registry := Function.update s.registry docID (some e) }

theorem publish_ok {t : DocumentState} (ops : Finset Op) (hn : s.registry e.id = none)
    (hc : canTransition e.state t = true) :
    (s.alloc ops).publish e t = (.ok e.doc, opened s e.id { e with state := t } ops) := by
  unfold State.publish register
  rw [show (s.alloc ops).registry e.id = none from hn]
  simp only [transition_ok (update_self ..) hc, update_idem]
  rfl

theorem getOrCreateDocument_cases (docID roomID filePath : String) : (∃ e, s.registry docID = some e ∧
      getOrCreateDocument E Z s docID roomID filePath = (.ok e.doc, s)) ∨
    (s.registry docID = none ∧ (s.repo.metadata docID).isSome ∧
      ((∃ err, recoverDocument E Z s.repo docID = .error err ∧
          getOrCreateDocument E Z s docID roomID filePath = (.error err, s)) ∨
        ∃ r, recoverDocument E Z s.repo docID = .ok r ∧
          getOrCreateDocument E Z s docID roomID filePath = (.ok s.nextDoc, opened s docID
            { recoveredEntry docID roomID filePath s.nextDoc r with state := .active } r.ops))) ∨
    (s.registry docID = none ∧ s.repo.metadata docID = none ∧
      getOrCreateDocument E Z s docID roomID filePath = (.ok s.nextDoc,
        opened { s with repo := s.repo.saveMetadata ⟨docID, roomID, filePath⟩ } docID
          { createdEntry docID roomID filePath s.nextDoc with state := .initialized } ∅)) := by
  unfold getOrCreateDocument
  cases he : s.registry docID with
  | some e => exact .inl ⟨e, rfl, rfl⟩
  | none =>
    right
    unfold Repository.getMetadata
    cases hm : s.repo.metadata docID with
    | some m =>
      left
      refine ⟨rfl, rfl, ?_⟩
      simp only [recoverInto]
      cases hr : recoverDocument E Z s.repo docID with
      | error err => exact .inl ⟨err, rfl, rfl⟩
      | ok r => exact .inr ⟨r, rfl, publish_ok s r.ops he rfl⟩
    | none =>
      right
      refine ⟨rfl, rfl, ?_⟩
      exact publish_ok { s with repo := s.repo.saveMetadata ⟨docID, roomID, filePath⟩ } ∅ he rfl

end

end Collab
