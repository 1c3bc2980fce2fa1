import Cpip.Collab.Durable

/-!
# Collaboration engine: which configurations are durable

* `edit_save`  an edit followed by a snapshot stores one snapshot, whether or not the edit was flushed at once;
* `durable_iff`  **durable exactly when `IncrementalSnapshotThreshold ≤ RetentionCount`**.
-/

namespace Collab

open Lts List Config Engine History

/-- the calls that open, edit, save or archive a document -/
def Event.edits : Event → Bool
  | .call (.delete _) => false
  | .call _ => true
  | .restart => false

/-- **Durability**: a recovery gives back every operation of every update that was accepted. -/
def Durable (cfg : Config) : Prop :=
  ∀ (Op : Type) [DecidableEq Op] (E : Engine Op) (Z : Gzip) (cs : List Event) (h : History Op),
    (∀ c ∈ cs, c.edits = true) →
    run (step E Z cfg) (init Op) cs = some h →
    ∀ d u, (d, u) ∈ h.accepted → ∃ r, recoverDocument E Z h.state.repo d = .ok r ∧ payloadOps E u ⊆ r.ops

/-! ## one edit, one snapshot -/

section
variable {Op : Type} [DecidableEq Op] {E : Engine Op} {Z : Gzip} {cfg : Config}

def round (E : Engine Op) (Z : Gzip) (cfg : Config) (s : State Op) (d : String)
    (e : DocumentEntry) (u : Bytes) (ops : Finset Op) : State Op :=
  saved E Z cfg (edited s d e u ops) d e.markEdited

variable {d : String} {e : DocumentEntry} {u : Bytes} {ops : Finset Op}

theorem edit_save {h : History Op} (hc : checkUpdate cfg u = .ok ()) (he : h.state.registry d = some e)
    (ht : tryApply E cfg (h.state.ops e.doc) u = .ok ops) (hst : e.state = .initialized ∨ e.state = .persisted) :
    run (step E Z cfg) h [.call (.apply d u), .call (.save d)]
      = some ⟨round E Z cfg h.state d e u ops, (d, u) :: h.accepted⟩ := by
  have hreg : (edited h.state d e u ops).registry d = some e.markEdited :=
    Function.update_self ..
  have hdirty : e.markEdited.state = .dirty := by
    refine DocumentState.edited_canTransition ?_
    rcases hst with h | h <;> simp [h]
  have hsave : saveSnapshot E Z cfg (edited h.state d e u ops) d = (.ok (), round E Z cfg h.state d e u ops) := by
    rcases saveSnapshot_cases E Z cfg (edited h.state d e u ops) d with ⟨_, -, hn⟩ | ⟨e', he', -, hs⟩
    · exact absurd (.inr hdirty) (hn _ hreg)
    · cases hreg.symm.trans he'
      exact hs
  have hagain : saveSnapshot E Z cfg (round E Z cfg h.state d e u ops) d
      = (.error .invalidDocumentState, round E Z cfg h.state d e u ops) := by
    have hr : (round E Z cfg h.state d e u ops).registry d = some
        { e.markEdited.recordSnapshot (captured E Z cfg (edited h.state d e u ops) d e.markEdited)
          with state := .persisted } := Function.update_self ..
    unfold saveSnapshot Registry.planSnapshot Registry.transition
    simp only [hr, Option.map_some]
    rfl
  simp only [step, State.call, applyIncrementalUpdate_ok E Z cfg hc he ht,
    Option.bind_some, run_cons, run_nil, Call.note]
  split
  · rw [hsave]
    simp only [hagain]
    rfl
  · rw [hsave]
    rfl

/-! ## the window wears out -/

/-- `n` incremental snapshots without the operation `o` have followed the full one that holds it,
and the log is empty -/
structure Worn (E : Engine Op) (Z : Gzip) (cfg : Config) (o : Op) (s : State Op) (d : String)
    (n : Nat) (e : DocumentEntry) (first : Snapshot) (incs : List Snapshot) : Prop where
  live : s.registry d = some e
  state : e.state = .persisted
  count : e.snapshot.snapshotCount = n + 1
  lastID : e.snapshot.lastSnapshotID ≠ ""
  holds : o ∈ s.ops e.doc
  snaps : s.repo.snapshots d = kept cfg.snapMgr.retentionCount (first :: incs)
  len : incs.length = n
  without : ∀ i ∈ incs, o ∉ snapOps E Z i
  readable : ∀ i ∈ first :: incs, (readSnapshot E Z i).isSome
  vector : ∃ l D, (first :: incs).getLast? = some l ∧ l.stateVector = E.encodeVector D ∧ o ∈ D
  log : s.repo.updates d = []

variable {s : State Op}

theorem round_log (h : s.repo.updates d = []) : (round E Z cfg s d e u ops).repo.updates d = [] := by
  rw [round, saved_updates, edited_updates, h]
  simp [DocumentEntry.markEdited]

theorem round_ops : (round E Z cfg s d e u ops).ops e.doc = ops :=
  edited_ops s d e u ops

theorem round_registry : (round E Z cfg s d e u ops).registry d = some
      { e.markEdited.recordSnapshot (captured E Z cfg (edited s d e u ops) d e.markEdited)
        with state := .persisted } := Function.update_self ..

variable {o : Op}

theorem worn_first (u : Bytes) (ops : Finset Op) (hcount : e.snapshot.snapshotCount = 0)
    (hsnaps : s.repo.snapshots d = []) (hlog : s.repo.updates d = []) (ho : o ∈ ops) :
    ∃ e' first, Worn E Z cfg o (round E Z cfg s d e u ops) d 0 e' first [] := by
  refine ⟨_, captured E Z cfg (edited s d e u ops) d e.markEdited, round_registry, rfl, ?_,
    newID_ne _ _, ?_, ?_, rfl, by simp, ?_, ⟨_, ops, rfl, ?_, ho⟩, round_log hlog⟩
  · show e.snapshot.snapshotCount + 1 = 0 + 1
    rw [hcount]
  · show o ∈ (round E Z cfg s d e u ops).ops e.doc
    rwa [round_ops]
  · rw [round, saved_snapshots, show (edited s d e u ops).repo.snapshots d = [] from hsnaps]
    rfl
  · intro i hi
    rw [mem_singleton.mp hi, captured_read]
    rfl
  · show E.encodeVector ((edited s d e u ops).ops e.doc) = _
    rw [edited_ops]

/-- **One more round**: as long as the threshold is not reached, the snapshot is incremental and
does not hold the old operation. -/
theorem worn_succ {n : Nat} {first : Snapshot} {incs : List Snapshot} (u : Bytes) (ops : Finset Op)
    (h : Worn E Z cfg o s d n e first incs) (hR : 1 ≤ cfg.snapMgr.retentionCount)
    (hT : n + 1 < cfg.snapMgr.incrementalThreshold) (ho : o ∈ ops) :
    ∃ e' i, Worn E Z cfg o (round E Z cfg s d e u ops) d (n + 1) e' first (incs ++ [i]) := by
  obtain ⟨l, D, hl, hlv, hoD⟩ := h.vector
  obtain ⟨v, hv, hcov⟩ := E.decodeStateVector_encode D
  have hplan : cfg.snapMgr.plan E (edited s d e u ops).repo d e.markEdited.snapshot
      = (.incremental, some v, l.version) := by
    refine plan_incremental E (by omega) h.lastID ?_ ?_ (by rw [hlv, hv])
    · show e.snapshot.snapshotCount % _ ≠ 0
      rw [h.count, Nat.mod_eq_of_lt hT]
      omega
    · show (s.repo.snapshots d).getLast? = some l
      rw [h.snaps, kept_getLast? hR, hl]
  have hread := captured_read E Z cfg (edited s d e u ops) d e.markEdited
  refine ⟨_, captured E Z cfg (edited s d e u ops) d e.markEdited, round_registry, rfl, ?_,
    newID_ne _ _, ?_, ?_, by simp [h.len], ?_, ?_, ⟨captured E Z cfg (edited s d e u ops) d e.markEdited,
      ops, ?_, ?_, ho⟩, round_log h.log⟩
  · show e.snapshot.snapshotCount + 1 = n + 1 + 1
    rw [h.count]
  · show o ∈ (round E Z cfg s d e u ops).ops e.doc
    rwa [round_ops]
  · rw [round, saved_snapshots, show (edited s d e u ops).repo.snapshots d = s.repo.snapshots d from rfl, h.snaps,
      kept_kept_snoc hR, cons_append]
  · intro i hi
    rcases mem_append.mp hi with hi | hi
    · exact h.without i hi
    · rw [mem_singleton.mp hi, snapOps, hread, captured_kind, hplan]
      simp [payloadSet, (hcov o).mpr hoD]
  · intro i hi
    rcases mem_append.mp (by simpa using hi : i ∈ (first :: incs) ++ [_]) with hi | hi
    · exact h.readable i hi
    · rw [mem_singleton.mp hi, hread]
      rfl
  · rw [← cons_append, getLast?_concat]
  · show E.encodeVector ((edited s d e u ops).ops e.doc) = _
    rw [edited_ops]

theorem worn_lost {first : Snapshot} {incs : List Snapshot} (hR : 1 ≤ cfg.snapMgr.retentionCount)
    (h : Worn E Z cfg o s d cfg.snapMgr.retentionCount e first incs) :
    ∀ r, recoverDocument E Z s.repo d = .ok r → o ∉ r.ops := by
  have hsn : s.repo.snapshots d = incs := by
    rw [h.snaps, kept, length_cons, h.len, Nat.add_sub_cancel_left]
    rfl
  have hne : s.repo.snapshots d ≠ [] := by
    rw [hsn]
    exact ne_nil_of_length_pos (by have := h.len; omega)
  have hread : Readable E Z s.repo d :=
    ⟨fun i hi => h.readable i (by rw [hsn] at hi; simp [hi]), by simp [h.log]⟩
  intro r hr ho
  obtain ⟨r', hr', hops, -⟩ := recoverDocument_ok E Z hread (.inl hne)
  cases hr.symm.trans hr'
  rw [hops, content, Finset.mem_union, mem_tailOps, h.log, hsn] at ho
  rcases ho with ho | ⟨u, hu, -⟩
  · obtain ⟨i, hi, hoi⟩ := mem_unionOps.mp ho
    exact h.without i (Chain.mem_of_mem_chain hi) hoi
  · cases hu

end

/-! ## the run -/

section
variable {cfg : Config}

def editSave (d : String) (u : Bytes) : List Event := [.call (.apply d u), .call (.save d)]

/-- open the document, store the first update in a full snapshot, then `n` rounds with another
update -/
def wearRun (d : String) : Nat → List Event
  | 0 => .call (.getOrCreate d "room" "file") :: editSave d [1]
  | n + 1 => wearRun d n ++ editSave d [2]

theorem wearRun_edits (d : String) (n : Nat) : ∀ c ∈ wearRun d n, c.edits = true := by
  induction n with
  | zero => simp [wearRun, editSave, Event.edits]
  | succ n ih =>
    intro c hc
    rcases mem_append.mp hc with hc | hc
    · exact ih c hc
    · rcases mem_pair.mp hc with rfl | rfl <;> rfl

theorem checkUpdate_byte (hv : cfg.Valid) (b : UInt8) : checkUpdate cfg [b] = .ok () := by
  have := hv.update
  unfold checkUpdate
  rw [if_neg (by simp), if_neg (by simp only [length_singleton]; omega)]

theorem tryApply_byte (hv : cfg.Valid) (ops : Finset (Fin 4)) (b : UInt8) :
    tryApply bits cfg ops [b] = .ok (ops ∪ unflags b) := by
  have hd := hv.document
  have hs : (bits.size ops : Int) = 1 := rfl
  unfold tryApply
  rw [if_neg (by rw [hs]; omega)]
  rfl

theorem wearRun_worn (hv : cfg.Valid) (Z : Gzip) (n : Nat) (hn : n = 0 ∨ n < cfg.snapMgr.incrementalThreshold) :
    ∃ h e first incs, run (step bits Z cfg) (init (Fin 4)) (wearRun "d" n) = some h ∧
      Worn bits Z cfg 0 h.state "d" n e first incs ∧ ("d", [1]) ∈ h.accepted := by
  have hR : 1 ≤ cfg.snapMgr.retentionCount := by
    rw [snapMgr_retention hv]
    have := hv.retention
    omega
  induction n with
  | zero =>
    have hopen : run (step bits Z cfg) (init (Fin 4)) [.call (.getOrCreate "d" "room" "file")]
        = some ⟨(getOrCreateDocument bits Z (State.init (Fin 4)) "d" "room" "file").2, []⟩ := by
      rfl
    have hround := edit_save (Z := Z)
      (h := ⟨(getOrCreateDocument bits Z (State.init (Fin 4)) "d" "room" "file").2, []⟩)
      (d := "d") (e := { createdEntry "d" "room" "file" 0 with state := .initialized })
      (checkUpdate_byte hv 1) rfl (tryApply_byte hv _ 1) (.inl rfl)
    obtain ⟨e, first, hw⟩ : ∃ e first, Worn bits Z cfg 0 (round bits Z cfg
        (getOrCreateDocument bits Z (State.init (Fin 4)) "d" "room" "file").2 "d"
        { createdEntry "d" "room" "file" 0 with state := .initialized } [1] (∅ ∪ unflags 1))
        "d" 0 e first [] :=
      worn_first [1] (∅ ∪ unflags 1) rfl rfl rfl (by decide)
    exact ⟨_, e, first, [], run_append_eq hopen hround, hw, by simp⟩
  | succ n ih =>
    obtain ⟨h, e, first, incs, hrun, hw, hacc⟩ := ih (by omega)
    have hround := edit_save (Z := Z) (u := [2]) (checkUpdate_byte hv 2) hw.live
      (tryApply_byte hv _ 2) (.inr hw.state)
    obtain ⟨e', i, hw'⟩ := worn_succ [2] (h.state.ops e.doc ∪ unflags 2) hw hR
      (by omega) (Finset.mem_union_left _ hw.holds)
    exact ⟨_, e', first, incs ++ [i], run_append_eq hrun hround, hw', by simp [hacc]⟩

theorem not_durable (hv : cfg.Valid) (hT : cfg.retentionCount < cfg.incrementalSnapshotThreshold) :
    ¬ Durable cfg := by
  have h1 := hv.retention
  have hR := snapMgr_retention hv
  have hI := snapMgr_incremental hv
  obtain ⟨h, e, first, incs, hrun, hw, hacc⟩ := wearRun_worn hv Gzip.stored
    cfg.snapMgr.retentionCount (.inr (by omega))
  intro hd
  obtain ⟨r, hr, hsub⟩ := hd (Fin 4) bits Gzip.stored _ h (wearRun_edits "d" _) hrun "d" [1] hacc
  exact worn_lost (by omega) hw r hr (hsub (by decide))

end

theorem default_loses_update : ((run (step bits Gzip.stored default) (init (Fin 4))
      (wearRun "d" 5)).map fun h => (decide (("d", [1]) ∈ h.accepted),
        (recoverDocument bits Gzip.stored h.state.repo "d").toOption.map fun r =>
          decide (payloadOps bits [1] ⊆ r.ops))) = some (true, some false) := by
  decide +kernel

/-- **Accepted edits are durable exactly when a chain fits in the retention window.** -/
theorem durable_iff (c cfg : Config) (hv : c.validate = .ok cfg) :
    Durable cfg ↔ cfg.incrementalSnapshotThreshold ≤ cfg.retentionCount := by
  have hv := validate_valid hv
  constructor
  · intro h
    by_contra hn
    exact not_durable hv (by omega) h
  · intro hT Op _ E Z cs h _ hr d u hu
    have h1 := hv.retention
    have hR := snapMgr_retention hv
    have hI := snapMgr_incremental hv
    exact (safe_run (by omega) (by omega) hr d).durable hu

theorem durable_iff_default : Durable default ↔ default.incrementalSnapshotThreshold ≤ default.retentionCount :=
  durable_iff default default validate_default

end Collab
