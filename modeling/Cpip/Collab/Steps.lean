import Cpip.Lib.Pool
import Cpip.Collab.Calls

/-!
# Collaboration engine: the calls of the manager, step by step

Concurrent calls interleave between their accesses to the registry, to the documents and to the
repository: each access is one critical section of its own lock.  `Pc` names the points of a call
between two accesses, with what the call has read so far; `Pc.next` is one access that succeeds
and `Pc.failed` what a call does when its storage access returns an error.

* `engine`  the calls as threads over the shared state.
-/

namespace Collab

/-- who called `SaveSnapshot`: its own caller, the flush of an edit, an archival -/
inductive Cont where
  | ret
  | flush
  | archive
deriving DecidableEq

inductive Pc (V Op : Type) where
  | applyGet (u : Bytes)
  | applySize (u : Bytes) (h : Nat)
  | applyDoc (u : Bytes) (h : Nat)
  | applyMark (u : Bytes) (h : Nat)
  | applySave (u : Bytes) (version : Nat)
  | applyInfo (u : Bytes)
  | savePlan (k : Cont)
  | savePending (k : Cont) (plan : SnapshotPlan)
  | saveBase (k : Cont) (plan : SnapshotPlan)
  | saveEncode (k : Cont) (plan : SnapshotPlan) (kind : SnapshotKind) (base : Option V) (baseVersion : Nat)
  | saveVector (k : Cont) (plan : SnapshotPlan) (kind : SnapshotKind) (baseVersion : Nat) (raw : Bytes)
  | saveStore (k : Cont) (snap : Snapshot)
  | savePrune (k : Cont) (snap : Snapshot)
  | saveLog (k : Cont) (snap : Snapshot)
  | saveRecord (k : Cont) (snap : Snapshot)
  | savePersisted (k : Cont)
  | saveRevert (k : Cont) (err : Err)
  | archiveInfo
  | archiveTransition
  | archiveUnregister
  | archiveDestroy (h : Nat)
  | openGet (roomID filePath : String)
  | openMetadata (roomID filePath : String)
  | openBase (roomID filePath : String)
  | openTail (roomID filePath : String) (base : RecoveryBase Op)
  | openSave (roomID filePath : String)
  | openRegister (e : DocumentEntry) (t : DocumentState)
  | openTransition (h : Nat) (t : DocumentState)
  | deleteUnregister
  | deleteDestroy (h : Nat)
  | deleteStorage
  | done (r : Except Err (Option Nat))

def Call.docID : Call → String
  | .getOrCreate d _ _ => d
  | .apply d _ => d
  | .save d => d
  | .archive d => d
  | .delete d => d

def Call.start {V Op : Type} : Call → Pc V Op
  | .getOrCreate _ r f => .openGet r f
  | .apply _ u => .applyGet u
  | .save _ => .savePlan .ret
  | .archive _ => .archiveInfo
  | .delete _ => .deleteUnregister

def Cont.finish {V Op : Type} : Cont → Except Err Unit → Pc V Op
  | .ret, .ok _ => .done (.ok none)
  | .ret, .error e => .done (.error e)
  | .flush, _ => .done (.ok none)
  | .archive, .ok _ => .archiveTransition
  | .archive, .error e => .done (.error e)

section
variable {Op : Type} [DecidableEq Op] (E : Engine Op) (Z : Gzip) (cfg : Config)

/-- one access of a call on document `d` -/
@[simp]
def Pc.next (d : String) (s : State Op) : Pc E.Vector Op → Option (Pc E.Vector Op × State Op)
  | .applyGet u => some <|
    match checkUpdate cfg u with
    | .error err => (.done (.error err), s)
    | .ok _ =>
      match s.registry d with
      | none => (.done (.error .documentNotFound), s)
      | some e => (.applySize u e.doc, s)
  | .applySize u h => some <|
    if (E.size (s.ops h) : Int) > cfg.maxDocumentSize then
      (.done (.error .documentSizeExceeded), s)
    else (.applyDoc u h, s)
  | .applyDoc u h => some <|
    match E.applyUpdate (s.ops h) u with
    | none => (.done (.error .corruptedUpdate), s)
    | some ops =>
      (.applyMark u h,
        { s with docs := Function.update s.docs h { s.docs h with ops := ops } })
  | .applyMark u _ =>
    let m := s.registry.markEdited d
    some (.applySave u m.2, { s with registry := m.1 })
  | .applySave u v => some (.applyInfo u,
      { s with
        repo := s.repo.saveUpdate ⟨newID "up" s.nextID, d, u, v⟩
        nextID := s.nextID + 1 })
  | .applyInfo _ => some (if mustFlush cfg s d then .savePlan .flush else .done (.ok none), s)
  | .savePlan k => some <|
    match s.registry.planSnapshot d with
    | none => (k.finish (.error .documentNotFound), s)
    | some plan => (.savePending k plan, s)
  | .savePending k plan => some <|
    match s.registry.transition d .snapshotPending with
    | .error err => (k.finish (.error err), s)
    | .ok reg => (.saveBase k plan, { s with registry := reg })
  | .saveBase k plan =>
    let p := cfg.snapMgr.plan E s.repo d plan.prev
    some (.saveEncode k plan p.1 p.2.1 p.2.2, s)
  | .saveEncode k plan kind base bv =>
    some (.saveVector k plan kind bv (encodePayload E kind base (s.ops plan.doc)), s)
  | .saveVector k plan kind bv raw =>
    some (.saveStore k (cfg.snapMgr.describe Z (newID "snap" s.nextID) d kind
        (E.encodeVector (s.ops plan.doc)) raw bv plan.version),
      { s with nextID := s.nextID + 1 })
  | .saveStore k snap => some (.savePrune k snap, { s with repo := s.repo.saveSnapshot snap })
  | .savePrune k snap => some (.saveLog k snap,
      { s with repo := s.repo.pruneSnapshots d cfg.snapMgr.retentionCount })
  | .saveLog k snap => some (.saveRecord k snap,
      { s with repo := s.repo.deleteUpdates d (snap.version + 1) })
  | .saveRecord k snap => some (.savePersisted k,
      { s with registry := s.registry.recordSnapshot d snap })
  | .savePersisted k => some <|
    match s.registry.transition d .persisted with
    | .error err => (k.finish (.error err), s)
    | .ok reg => (k.finish (.ok ()), { s with registry := reg })
  | .saveRevert k err => some <|
    match s.registry.transition d .dirty with
    | .error _ => (k.finish (.error err), s)
    | .ok reg => (k.finish (.error err), { s with registry := reg })
  | .archiveInfo => some <|
    match s.registry d with
    | none => (.done (.error .documentNotFound), s)
    | some e => (if e.isDirty then .savePlan .archive else .archiveTransition, s)
  | .archiveTransition => some <|
    match s.registry.transition d .archived with
    | .error err => (.done (.error err), s)
    | .ok reg => (.archiveUnregister, { s with registry := reg })
  | .archiveUnregister => some <|
    match s.registry d with
    | none => (.done (.ok none), s)
    | some e => (.archiveDestroy e.doc, { s with registry := s.registry.unregister d })
  | .archiveDestroy h => some (.done (.ok none), s.destroy h)
  | .openGet r f => some <|
    match s.registry d with
    | some e => (.done (.ok (some e.doc)), s)
    | none => (.openMetadata r f, s)
  | .openMetadata r f => some <|
    match s.repo.getMetadata d with
    | .ok _ => (.openBase r f, s)
    | .error _ => (.openSave r f, s)
  | .openBase r f => some <|
    match recoverBase E Z s.repo d with
    | .error err => (.done (.error err), s)
    | .ok b => (.openTail r f b, s)
  | .openTail r f b => some <|
    match recoverTail E b.ops b.payloads b.version b.fromID (s.repo.getUpdates d b.version) with
    | .error err => (.done (.error err), s)
    | .ok x => (.openRegister (recoveredEntry d r f s.nextDoc x) .active, s.alloc x.ops)
  | .openSave r f => some (.openRegister (createdEntry d r f s.nextDoc) .initialized,
      { s with repo := s.repo.saveMetadata ⟨d, r, f⟩ }.alloc ∅)
  | .openRegister e t => some <|
    match s.registry.register e with
    | .error err => (.done (.error err), s.destroy e.doc)
    | .ok reg => (.openTransition e.doc t, { s with registry := reg })
  | .openTransition h t => some <|
    match s.registry.transition d t with
    | .error err => (.done (.error err), s)
    | .ok reg => (.done (.ok (some h)), { s with registry := reg })
  | .deleteUnregister => some <|
    match s.registry d with
    | none => (.deleteStorage, s)
    | some e => (.deleteDestroy e.doc, { s with registry := s.registry.unregister d })
  | .deleteDestroy h => some (.deleteStorage, s.destroy h)
  | .deleteStorage => some (.done (.ok none), { s with repo := s.repo.deleteDocument d })
  | .done _ => none

/-- what a call does when its storage access fails, or when a released document refuses the
update; the state does not change -/
def Pc.failed (s : State Op) : Pc E.Vector Op → Option (Pc E.Vector Op)
  | .applyDoc _ h => if (s.docs h).destroyed then some (.done (.error .corruptedUpdate)) else none
  | .applySave _ _ => some (.done (.error .storage))
  | .saveBase k plan => some (.saveEncode k plan .full none 0)
  | .saveStore k _ => some (.saveRevert k .snapshotFailure)
  | .savePrune k snap => some (.saveLog k snap)
  | .saveLog k snap => some (.saveRecord k snap)
  | .openMetadata _ _ => some (.done (.error .storage))
  | .openBase _ _ => some (.done (.error .recoveryFailure))
  | .openTail _ _ _ => some (.done (.error .recoveryFailure))
  | .openSave _ _ => some (.done (.error .storage))
  | .deleteStorage => some (.done (.error .storage))
  | _ => none

inductive Ans where
  | ok
  | fail
deriving DecidableEq

structure Thread (V Op : Type) where
  call : Call
  pc : Pc V Op

def Thread.step (t : Thread E.Vector Op) (s : State Op) : Ans → Option (Thread E.Vector Op × State Op)
  | .ok => (t.pc.next E Z cfg t.call.docID s).map fun r => ({ t with pc := r.1 }, r.2)
  | .fail => (t.pc.failed E s).map fun pc => ({ t with pc := pc }, s)

theorem Thread.step_ok {t t' : Thread E.Vector Op} {s m : State Op} (h : t.step E Z cfg s .ok = some (t', m)) :
    ∃ pc', t' = ⟨t.call, pc'⟩ ∧ t.pc.next E Z cfg t.call.docID s = some (pc', m) := by
  obtain ⟨⟨pc', m'⟩, hn, he⟩ := Option.map_eq_some_iff.mp h
  cases he
  exact ⟨pc', rfl, hn⟩

/-- **the calls of the manager as threads over the engine** -/
def engine : Pool.Prog Call (State Op) (Thread E.Vector Op) Ans :=
  ⟨fun c => ⟨c, c.start⟩, Thread.step E Z cfg⟩

end

end Collab
