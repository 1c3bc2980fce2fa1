import Cpip.Collab.Durable
import Cpip.Collab.Steps

/-!
# Collaboration engine: edits, snapshots and archivals interleaved

The invariant behind the durability of accepted edits when the calls on one document interleave.

* `Calm`  the condition on a step;
* `Solid`, `RaceInv`  what holds of the shared state, and of the calls under way.

`h0` is the document in memory and `stay` says that no archival takes part.
-/

set_option linter.unusedSectionVars false

namespace Collab

open Pool

section
variable {Op : Type} [DecidableEq Op]

/-! ## phases of a call -/

/-- between the transitions to `SnapshotPending` and to `Persisted` -/
def Pc.pending {V : Type} : Pc V Op → Bool
  | .saveBase _ _ => true
  | .saveEncode _ _ _ _ _ => true
  | .saveVector _ _ _ _ _ => true
  | .saveStore _ _ => true
  | .savePrune _ _ => true
  | .saveLog _ _ => true
  | .saveRecord _ _ => true
  | .savePersisted _ => true
  | .saveRevert _ _ => true
  | _ => false

def Pc.encoding {V : Type} : Pc V Op → Bool
  | .saveVector _ _ _ _ _ => true
  | _ => false

def Pc.archival {V : Type} : Pc V Op → Bool
  | .savePlan k => k = .archive
  | .savePending k _ => k = .archive
  | .saveBase k _ => k = .archive
  | .saveEncode k _ _ _ _ => k = .archive
  | .saveVector k _ _ _ _ => k = .archive
  | .saveStore k _ => k = .archive
  | .savePrune k _ => k = .archive
  | .saveLog k _ => k = .archive
  | .saveRecord k _ => k = .archive
  | .savePersisted k => k = .archive
  | .archiveInfo => true
  | .archiveTransition => true
  | .archiveUnregister => true
  | .archiveDestroy _ => true
  | _ => false

/-- after the update was logged, for the calls that log one -/
def Pc.logged {V : Type} : Pc V Op → Bool
  | .applyInfo _ => true
  | .savePlan _ => true
  | .savePending _ _ => true
  | .archiveTransition => true
  | .archiveUnregister => true
  | .archiveDestroy _ => true
  | .done (.ok _) => true
  | pc => pc.pending

variable (E : Engine Op) (Z : Gzip) (cfg : Config) (d : String) (h0 : Nat) (stay : Prop)

/-! ## the invariant -/

variable (s : State Op)

def snaps : List Snapshot := s.repo.snapshots d

/-- **the shared part** -/
structure Solid (s : State Op) : Prop where
  known : (s.repo.metadata d).isSome
  readable : Readable E Z s.repo d
  sound : VectorSound E Z (snaps d s)
  chain : chainOps E Z (snaps d s) ⊆ s.ops h0
  log : ∀ u ∈ s.repo.updates d, payloadOps E u.data ⊆ s.ops h0
  live : ∀ e, s.registry d = some e → e.doc = h0 ∧ lastVersion (snaps d s) ≤ e.version
  loaded : stay → (s.registry d).isSome

def Holding : Prop :=
  ∃ e, s.registry d = some e ∧ e.state = .snapshotPending

def Logged (u : Bytes) : Prop :=
  Stored s.repo d ∧ payloadOps E u ⊆ content E Z s.repo d

def Planned (doc version : Nat) : Prop :=
  doc = h0 ∧ ∀ e, s.registry d = some e → version ≤ e.version

/-- the operations of the chain once a payload of kind `kind` is added -/
def nextOps (kind : SnapshotKind) (raw : Bytes) : Finset Op :=
  payloadOps E raw ∪ match kind with
    | .full => ∅
    | .incremental => chainOps E Z (snaps d s)

/-- a snapshot that can be stored: it extends the chain, within the document, by every logged
update it will subsume -/
structure Storable (s : State Op) (snap : Snapshot) : Prop where
  docID : snap.docID = d
  readable : (readSnapshot E Z snap).isSome
  vector : ∃ D, snap.stateVector = E.encodeVector D ∧ D ⊆ chainOps E Z (snaps d s ++ [snap])
  extends_ : chainOps E Z (snaps d s) ⊆ chainOps E Z (snaps d s ++ [snap])
  within : chainOps E Z (snaps d s ++ [snap]) ⊆ s.ops h0
  log : ∀ u ∈ s.repo.updates d, u.version ≤ snap.version → payloadOps E u.data ⊆ chainOps E Z (snaps d s ++ [snap])
  version : ∀ e, s.registry d = some e → snap.version ≤ e.version

def PcOk (c : Call) : Pc E.Vector Op → Prop
  | .applyGet u => c = .apply d u
  | .applySize u h => c = .apply d u ∧ h = h0
  | .applyDoc u h => c = .apply d u ∧ h = h0
  | .applyMark u _ => c = .apply d u ∧ (E.decode u).isSome ∧ payloadOps E u ⊆ s.ops h0
  | .applySave u v => c = .apply d u ∧ (E.decode u).isSome ∧ payloadOps E u ⊆ s.ops h0 ∧ 0 < v ∧
      (v ≤ lastVersion (snaps d s) → payloadOps E u ⊆ chainOps E Z (snaps d s))
  | .applyInfo u => c = .apply d u
  | .savePlan _ => True
  | .savePending _ plan => Planned d h0 s plan.doc plan.version
  | .saveBase _ plan => Planned d h0 s plan.doc plan.version
  | .saveEncode _ plan kind base _ =>
      Planned d h0 s plan.doc plan.version ∧ PlannedOn E (snaps d s) kind base
  | .saveVector _ plan kind _ raw =>
      Planned d h0 s plan.doc plan.version ∧ (E.decode raw).isSome ∧ nextOps E Z d s kind raw = s.ops h0
  | .saveStore _ snap => Storable E Z d h0 s snap
  | .savePrune _ snap => lastVersion (snaps d s) = snap.version
  | .saveLog _ snap => lastVersion (snaps d s) = snap.version
  | .saveRecord _ _ => True
  | .savePersisted _ => True
  | .archiveInfo => c = .archive d
  | .archiveTransition => True
  | .archiveUnregister => ∀ e, s.registry d = some e → e.state = .archived
  | .archiveDestroy _ => True
  | .done _ => True
  | _ => False

/-- **the part of a call** -/
structure Local (s : State Op) (t : Thread E.Vector Op) : Prop where
  doc : t.call.docID = d
  holds : t.pc.pending = true → Holding d s
  logged : ∀ u, t.call = .apply d u → t.pc.logged = true → Logged E Z d s u
  stays : stay → t.pc.archival = false
  pc : PcOk E Z d h0 s t.call t.pc

/-- **the part of two calls** -/
structure Apart (s : State Op) (t u : Thread E.Vector Op) : Prop where
  mutex : t.pc.pending = true → u.pc.pending = false
  marked : ∀ k snap w v, t.pc = .saveStore k snap → u.pc = .applySave w v → v ≤ snap.version →
    payloadOps E w ⊆ chainOps E Z (snaps d s ++ [snap])

def Takes : Call → Prop
  | .apply x _ => x = d
  | .save x => x = d
  | .archive x => x = d ∧ ¬ stay
  | _ => False

/-- the steps under which accepted edits stay durable -/
def Calm (s : Sys (State Op) (Thread E.Vector Op)) : Act Call Ans → Prop
  | .spawn _ c => Takes d stay c
  | .step i a => a = .ok ∧ ∀ t, s.pool i = some t →
    match t.pc with
    | .applyDoc _ _ => ∀ j u, s.pool j = some u → u.pc.encoding = false
    | .applyMark _ _ => stay ∨ (s.shared.registry d).isSome
    | .savePrune _ _ => chainLength (snaps d s.shared) ≤ cfg.snapMgr.retentionCount
    | _ => True

/-! ## steps that write no snapshot -/

/-- a change that leaves the snapshots, the tail of the log and the document in place -/
structure Quiet (s s' : State Op) : Prop where
  same : snaps d s' = snaps d s
  known : (s.repo.metadata d).isSome → (s'.repo.metadata d).isSome
  ops : s.ops h0 ⊆ s'.ops h0
  tail : ∀ u ∈ s.repo.updates d, lastVersion (snaps d s) < u.version → u ∈ s'.repo.updates d
  reg : ∀ e', s'.registry d = some e' → ∃ e, s.registry d = some e ∧ e'.doc = e.doc ∧
    e.version ≤ e'.version ∧ (e.state = .archived → e'.state = .archived)

variable {E Z cfg d h0 stay} {s s' : State Op}

theorem logged_of {u : Bytes} (h : Logged E Z d s u) (hst : Stored s.repo d → Stored s'.repo d)
    (hc : content E Z s.repo d ⊆ content E Z s'.repo d) : Logged E Z d s' u :=
  ⟨hst h.1, h.2.trans hc⟩

section
variable (q : Quiet d h0 s s')
include q

theorem Quiet.stored (h : Stored s.repo d) : Stored s'.repo d := by
  have hsn : s'.repo.snapshots d = s.repo.snapshots d := q.same
  rcases h with h | h
  · exact .inl (by rwa [hsn])
  obtain ⟨u, hu⟩ := List.exists_mem_of_ne_nil _ h
  obtain ⟨hu, hv⟩ := mem_tail.mp hu
  refine .inr (List.ne_nil_of_mem (mem_tail.mpr ⟨q.tail u hu hv, ?_⟩))
  rwa [hsn]

theorem Quiet.content : content E Z s.repo d ⊆ content E Z s'.repo d := by
  have hsn : s'.repo.snapshots d = s.repo.snapshots d := q.same
  intro o ho
  rw [Collab.content, Finset.mem_union, mem_tailOps] at ho ⊢
  rw [hsn]
  rcases ho with ho | ⟨u, hu, hv, ho⟩
  · exact .inl ho
  · exact .inr ⟨u, q.tail u hu hv, hv, ho⟩

theorem Quiet.planned {doc version : Nat}
    (h : Planned d h0 s doc version) : Planned d h0 s' doc version := by
  refine ⟨h.1, fun e' he' => ?_⟩
  obtain ⟨e, he, -, hv, -⟩ := q.reg e' he'
  exact (h.2 e he).trans hv

theorem Quiet.storable {snap : Snapshot} (h : Storable E Z d h0 s snap)
    (hnew : ∀ x ∈ s'.repo.updates d, x.version ≤ snap.version →
      x ∈ s.repo.updates d ∨ payloadOps E x.data ⊆ chainOps E Z (snaps d s ++ [snap])) :
    Storable E Z d h0 s' snap where
  docID := h.docID
  readable := h.readable
  vector := by rw [q.same]; exact h.vector
  extends_ := by rw [q.same]; exact h.extends_
  within := by rw [q.same]; exact h.within.trans q.ops
  log x hx hv := by
    rw [q.same]
    rcases hnew x hx hv with hx | hx
    · exact h.log x hx hv
    · exact hx
  version e' he' := by
    obtain ⟨e, he, -, hv, -⟩ := q.reg e' he'
    exact (h.version e he).trans hv

theorem Quiet.local {t : Thread E.Vector Op}
    (h : Local E Z d h0 stay s t) (hhold : t.pc.pending = true → Holding d s')
    (henc : t.pc.encoding = true → s'.ops h0 = s.ops h0)
    (hnew : ∀ k snap, t.pc = .saveStore k snap → ∀ x ∈ s'.repo.updates d, x.version ≤ snap.version →
      x ∈ s.repo.updates d ∨ payloadOps E x.data ⊆ chainOps E Z (snaps d s ++ [snap])) :
    Local E Z d h0 stay s' t := by
  obtain ⟨c, pc⟩ := t
  refine ⟨h.doc, hhold, fun u hu hl => logged_of (h.logged u hu hl) q.stored q.content, h.stays, ?_⟩
  have hp := h.pc
  cases pc with
  | applyMark u k => exact ⟨hp.1, hp.2.1, hp.2.2.trans q.ops⟩
  | applySave u v =>
    obtain ⟨h1, h2, h3, h4, h5⟩ := hp
    exact ⟨h1, h2, h3.trans q.ops, h4, by rw [q.same]; exact h5⟩
  | savePending k plan | saveBase k plan => exact q.planned hp
  | saveEncode k plan kind base bv => exact ⟨q.planned hp.1, by rw [q.same]; exact hp.2⟩
  | saveVector k plan kind bv raw =>
    refine ⟨q.planned hp.1, hp.2.1, ?_⟩
    rw [henc rfl, ← hp.2.2]
    unfold nextOps
    rw [q.same]
  | saveStore k snap => exact q.storable hp (hnew k snap rfl)
  | savePrune k snap | saveLog k snap =>
    show lastVersion (snaps d s') = _
    rw [q.same]
    exact hp
  | archiveUnregister =>
    intro e' he'
    obtain ⟨e, he, -, -, ha⟩ := q.reg e' he'
    exact ha (hp e he)
  | _ => exact hp

theorem Quiet.apart {t u : Thread E.Vector Op} (h : Apart E Z d s t u) : Apart E Z d s' t u :=
  ⟨h.mutex, fun k snap w v ht hu hv => by rw [q.same]; exact h.marked k snap w v ht hu hv⟩

end

theorem Local.restored {t : Thread E.Vector Op} (h : Local E Z d h0 stay s t)
    (hp : t.pc.pending = false) (hreg : s'.registry = s.registry)
    (hops : s'.ops h0 = s.ops h0) (hst : Stored s.repo d → Stored s'.repo d)
    (hc : content E Z s.repo d ⊆ content E Z s'.repo d)
    (hsave : ∀ w v, t.pc = .applySave w v → v ≤ lastVersion (snaps d s') →
      payloadOps E w ⊆ chainOps E Z (snaps d s')) : Local E Z d h0 stay s' t := by
  obtain ⟨c, pc⟩ := t
  refine ⟨h.doc, fun h' => ?_, fun u hu hl => logged_of (h.logged u hu hl) hst hc, h.stays, ?_⟩
  · rw [hp] at h'
    cases h'
  have hpc := h.pc
  cases pc with
  | applyMark u k => exact ⟨hpc.1, hpc.2.1, by rw [hops]; exact hpc.2.2⟩
  | applySave u v =>
    obtain ⟨h1, h2, h3, h4, -⟩ := hpc
    exact ⟨h1, h2, by rw [hops]; exact h3, h4, hsave u v rfl⟩
  | savePending k plan => exact ⟨hpc.1, by rw [hreg]; exact hpc.2⟩
  | archiveUnregister =>
    show ∀ e, s'.registry d = some e → _
    rw [hreg]
    exact hpc
  | saveBase k plan | saveEncode k plan kind base bv | saveVector k plan kind bv raw | saveStore k snap
  | savePrune k snap | saveLog k snap | saveRecord k snap | savePersisted k => cases hp
  | _ => exact hpc

theorem apart_free {t u : Thread E.Vector Op} (hp : t.pc.pending = false)
    (hs : ∀ w v, t.pc ≠ .applySave w v) : Apart E Z d s t u ∧ Apart E Z d s u t := by
  refine ⟨⟨fun h => ?_, fun k snap w v h => ?_⟩, ⟨fun _ => hp, fun k snap w v _ h => absurd h (hs w v)⟩⟩
  · rw [hp] at h
    cases h
  · rw [h] at hp
    cases hp

theorem apart_held {t t' u : Thread E.Vector Op} {m : State Op} (h : Apart E Z d s t u)
    (hp : t.pc.pending = true) (hs : ∀ w v, t'.pc ≠ .applySave w v)
    (hm : ∀ k snap w v, t'.pc = .saveStore k snap → u.pc = .applySave w v → v ≤ snap.version →
      payloadOps E w ⊆ chainOps E Z (snaps d m ++ [snap])) :
    Apart E Z d m t' u ∧ Apart E Z d m u t' := by
  have hu := h.mutex hp
  refine ⟨⟨fun _ => hu, hm⟩, ⟨fun h' => ?_, fun k snap w v _ h' => absurd h' (hs w v)⟩⟩
  rw [hu] at h'
  cases h'

theorem Quiet.refl (s : State Op) : Quiet d h0 s s :=
  ⟨rfl, id, Finset.Subset.refl _, fun _ hu _ => hu, fun e he => ⟨e, he, rfl, Nat.le_refl _, id⟩⟩

theorem Quiet.entry {e e' : DocumentEntry} (he : s.registry d = some e) (hd : e'.doc = e.doc)
    (hv : e.version ≤ e'.version) (ha : e.state = .archived → e'.state = .archived) :
    Quiet d h0 s { s with registry := Function.update s.registry d (some e') } := by
  refine ⟨rfl, id, Finset.Subset.refl _, fun _ hu _ => hu, fun e'' he'' => ?_⟩
  have : e' = e'' := by simpa using he''
  subst this
  exact ⟨e, he, hd, hv, ha⟩

theorem Quiet.solid (q : Quiet d h0 s s') (h : Solid E Z d h0 stay s)
    (hlog : ∀ u ∈ s'.repo.updates d, u ∈ s.repo.updates d ∨
      (E.decode u.data).isSome ∧ payloadOps E u.data ⊆ s'.ops h0)
    (hl : stay → (s'.registry d).isSome) : Solid E Z d h0 stay s' where
  known := q.known h.known
  readable := by
    refine ⟨?_, fun u hu => ?_⟩
    · rw [show s'.repo.snapshots d = s.repo.snapshots d from q.same]
      exact h.readable.snaps
    rcases hlog u hu with hu | hu
    · exact h.readable.log u hu
    · exact hu.1
  sound := by rw [q.same]; exact h.sound
  chain := by rw [q.same]; exact h.chain.trans q.ops
  log u hu := by
    rcases hlog u hu with hu | hu
    · exact (h.log u hu).trans q.ops
    · exact hu.2
  live e' he' := by
    obtain ⟨e, he, hd, hv, -⟩ := q.reg e' he'
    obtain ⟨h1, h2⟩ := h.live e he
    rw [q.same]
    exact ⟨hd.trans h1, h2.trans hv⟩
  loaded := hl

section
variable {sys : Sys (State Op) (Thread E.Vector Op)} {i : Nat} {t t' : Thread E.Vector Op}
  {m : State Op}

variable (E Z d h0 stay) in
abbrev RaceInv : Sys (State Op) (Thread E.Vector Op) → Prop :=
  Inv (Solid E Z d h0 stay) (Local E Z d h0 stay) (Apart E Z d)

variable (E Z d h0 stay) in
abbrev RaceKeeps : Sys (State Op) (Thread E.Vector Op) → Nat → Thread E.Vector Op → State Op → Prop :=
  Keeps (Solid E Z d h0 stay) (Local E Z d h0 stay) (Apart E Z d)

section
variable (hi : RaceInv E Z d h0 stay sys)
include hi

theorem keeps_quiet (q : Quiet d h0 sys.shared m) (hG : Solid E Z d h0 stay m) (hL : Local E Z d h0 stay m t')
    (hhold : ∀ j u, j ≠ i → sys.pool j = some u → u.pc.pending = true → Holding d m)
    (henc : ∀ j u, j ≠ i → sys.pool j = some u → u.pc.encoding = true → m.ops h0 = sys.shared.ops h0)
    (hnew : ∀ j u, j ≠ i → sys.pool j = some u → ∀ k snap, u.pc = .saveStore k snap →
      ∀ x ∈ m.repo.updates d, x.version ≤ snap.version → x ∈ sys.shared.repo.updates d ∨
        payloadOps E x.data ⊆ chainOps E Z (snaps d sys.shared ++ [snap]))
    (hap : ∀ j u, j ≠ i → sys.pool j = some u → Apart E Z d m t' u ∧ Apart E Z d m u t') :
    RaceKeeps E Z d h0 stay sys i t' m where
  shared := hG
  self := hL
  other j u hj hu := q.local (hi.each j u hu) (hhold j u hj hu) (henc j u hj hu) (hnew j u hj hu)
  left j u hj hu := (hap j u hj hu).1
  right j u hj hu := (hap j u hj hu).2
  others j k u w _ _ hjk hu hw := q.apart (hi.pair j k u w hjk hu hw)

theorem keeps_restored (ht : sys.pool i = some t) (hp : t.pc.pending = true) (hs : ∀ w v, t'.pc ≠ .applySave w v)
    (hs' : ∀ k snap, t'.pc ≠ .saveStore k snap) (hreg : m.registry = sys.shared.registry)
    (hops : m.ops h0 = sys.shared.ops h0) (hst : Stored sys.shared.repo d → Stored m.repo d)
    (hc : content E Z sys.shared.repo d ⊆ content E Z m.repo d)
    (hsave : ∀ j u w v, j ≠ i → sys.pool j = some u → u.pc = .applySave w v →
      v ≤ lastVersion (snaps d m) → payloadOps E w ⊆ chainOps E Z (snaps d m))
    (hG : Solid E Z d h0 stay m) (hL : Local E Z d h0 stay m t') : RaceKeeps E Z d h0 stay sys i t' m := by
  have hfree : ∀ j u, j ≠ i → sys.pool j = some u → u.pc.pending = false :=
    fun j u hj hu => (hi.pair i j t u (Ne.symm hj) ht hu).mutex hp
  have hap : ∀ j u, j ≠ i → sys.pool j = some u → Apart E Z d m t' u ∧ Apart E Z d m u t' :=
    fun j u hj hu => apart_held (hi.pair i j t u (Ne.symm hj) ht hu) hp hs fun k snap _ _ h => absurd h (hs' k snap)
  refine ⟨hG, hL, fun j u hj hu => ?_, fun j u hj hu => (hap j u hj hu).1,
    fun j u hj hu => (hap j u hj hu).2, fun j k u w hj hk _ hu hw => ⟨fun h => ?_, fun k' snap _ _ h => ?_⟩⟩
  · exact (hi.each j u hu).restored (hfree j u hj hu) hreg hops hst hc fun w v => hsave j u w v hj hu
  · rw [hfree j u hj hu] at h
    cases h
  have := hfree j u hj hu
  rw [h] at this
  cases this

theorem keeps_registry (q : Quiet d h0 sys.shared m)
    (hl : stay → (m.registry d).isSome) (hrepo : m.repo = sys.shared.repo)
    (hops : m.ops h0 = sys.shared.ops h0) (hL : Local E Z d h0 stay m t')
    (hhold : ∀ j u, j ≠ i → sys.pool j = some u → u.pc.pending = true → Holding d m)
    (hap : ∀ j u, j ≠ i → sys.pool j = some u → Apart E Z d m t' u ∧ Apart E Z d m u t') :
    RaceKeeps E Z d h0 stay sys i t' m := by
  refine keeps_quiet hi q (q.solid hi.shared (fun u hu => .inl ?_) hl) hL hhold
    (fun _ _ _ _ _ => hops) (fun _ _ _ _ _ _ _ x hx _ => .inl ?_) hap
  · rwa [hrepo] at hu
  · rwa [hrepo] at hx

theorem keeps_same (hL : Local E Z d h0 stay sys.shared t')
    (hap : ∀ j u, j ≠ i → sys.pool j = some u → Apart E Z d sys.shared t' u ∧ Apart E Z d sys.shared u t') :
    RaceKeeps E Z d h0 stay sys i t' sys.shared :=
  keeps_registry hi (.refl _) hi.shared.loaded rfl rfl hL (fun j u _ hu hp => (hi.each j u hu).holds hp) hap

theorem keeps_read (hL : Local E Z d h0 stay sys.shared t')
    (hp : t'.pc.pending = false) (hs : ∀ w v, t'.pc ≠ .applySave w v) : RaceKeeps E Z d h0 stay sys i t' sys.shared :=
  keeps_same hi hL fun _ _ _ _ => apart_free hp hs

end

end

end

end Collab
