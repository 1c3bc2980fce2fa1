import Mathlib.Data.List.Sort
import Cpip.Collab.Snapshot

/-!
# Collaboration engine: the durable content of a document

What the repository holds of a document, as a set of operations: those of the snapshot chain together with those
of the logged updates newer than the newest snapshot.

* `chainOps`, `tailOps`, `content`  the parts of it;
* `recoverDocument_ok`, `recoverDocument_none`  **a recovery gives exactly the content**;
* `capture_covers`  a captured snapshot completes its base to the captured document, provided the base vector
  knows nothing the base chain lacks.
-/

namespace Collab

open List Option Repository SnapshotManager Snapshot Chain

section
variable {Op : Type} [DecidableEq Op]

def unionOps {α : Type*} (f : α → Finset Op) : List α → Finset Op
  | [] => ∅
  | a :: l => f a ∪ unionOps f l

theorem mem_unionOps {α : Type*} {f : α → Finset Op} {l : List α} {o : Op} : o ∈ unionOps f l ↔ ∃ a ∈ l, o ∈ f a := by
  induction l with
  | nil => simp [unionOps]
  | cons a l ih => simp [unionOps, ih]

theorem unionOps_append {α : Type*} (f : α → Finset Op) (l m : List α) :
    unionOps f (l ++ m) = unionOps f l ∪ unionOps f m := by
  ext o
  simp only [mem_unionOps, mem_append, Finset.mem_union]
  constructor
  · rintro ⟨a, ha | ha, ho⟩
    · exact .inl ⟨a, ha, ho⟩
    · exact .inr ⟨a, ha, ho⟩
  · rintro (⟨a, ha, ho⟩ | ⟨a, ha, ho⟩)
    · exact ⟨a, .inl ha, ho⟩
    · exact ⟨a, .inr ha, ho⟩

theorem unionOps_perm {α : Type*} (f : α → Finset Op) {l m : List α} (h : l.Perm m) :
    unionOps f l = unionOps f m := by
  ext o
  simp only [mem_unionOps, h.mem_iff]

variable (E : Engine Op) (Z : Gzip)

def payloadOps (data : Bytes) : Finset Op := (E.decode data).getD ∅

def readSnapshot (s : Snapshot) : Option (Finset Op) := (decompress Z s).bind E.decode

def snapOps (s : Snapshot) : Finset Op := (readSnapshot E Z s).getD ∅

variable (snaps : List Snapshot)

def chainOps : Finset Op :=
  unionOps (snapOps E Z) (chain isFull snaps)

def lastVersion : Nat := (snaps.getLast?.map version).getD 0

variable (repo : Repository) (docID : String)

def tail : List Update :=
  repo.getUpdates docID (lastVersion (repo.snapshots docID))

def tailOps : Finset Op :=
  unionOps (fun u => payloadOps E u.data) (tail repo docID)

/-- **the durable content of a document** -/
def content : Finset Op :=
  chainOps E Z (repo.snapshots docID) ∪ tailOps E repo docID

structure Readable (repo : Repository) (docID : String) : Prop where
  snaps : ∀ s ∈ repo.snapshots docID, (readSnapshot E Z s).isSome
  log : ∀ u ∈ repo.updates docID, (E.decode u.data).isSome

def Stored : Prop :=
  repo.snapshots docID ≠ [] ∨ tail repo docID ≠ []

theorem lastVersion_nil : lastVersion [] = 0 := rfl

theorem lastVersion_snoc (s : Snapshot) : lastVersion (snaps ++ [s]) = s.version := by
  simp [lastVersion]

theorem chainOps_nil : chainOps E Z [] = ∅ := rfl

variable {s : Snapshot}

theorem chainOps_snoc_full (h : s.kind = .full) :
    chainOps E Z (snaps ++ [s]) = snapOps E Z s := by
  unfold chainOps
  rw [chain_snoc_pos snaps s (by rw [isFull, h]; rfl)]
  simp [unionOps]

theorem chainOps_snoc_incremental (h : s.kind = .incremental) :
    chainOps E Z (snaps ++ [s]) = chainOps E Z snaps ∪ snapOps E Z s := by
  unfold chainOps
  rw [chain_snoc_neg snaps s (by rw [isFull, h]; rfl), unionOps_append]
  simp [unionOps]

variable {docID : String} {repo : Repository}

theorem mem_tail {u : Update} : u ∈ tail repo docID ↔
      u ∈ repo.updates docID ∧ lastVersion (repo.snapshots docID) < u.version := by
  simp [tail, getUpdates]

theorem mem_tailOps {o : Op} : o ∈ tailOps E repo docID ↔ ∃ u ∈ repo.updates docID,
      lastVersion (repo.snapshots docID) < u.version ∧ o ∈ payloadOps E u.data := by
  unfold tailOps
  rw [mem_unionOps]
  constructor
  · rintro ⟨u, hu, ho⟩
    exact ⟨u, (mem_tail.mp hu).1, (mem_tail.mp hu).2, ho⟩
  · rintro ⟨u, hu, hv, ho⟩
    exact ⟨u, mem_tail.mpr ⟨hu, hv⟩, ho⟩

theorem stored_congr {r r' : Repository} (hs : r'.snapshots docID = r.snapshots docID)
    (hu : r'.updates docID = r.updates docID) : Stored r' docID ↔ Stored r docID := by
  unfold Stored tail getUpdates
  rw [hs, hu]

variable {E Z} in
theorem content_congr {r r' : Repository} (hs : r'.snapshots docID = r.snapshots docID)
    (hu : r'.updates docID = r.updates docID) : content E Z r' docID = content E Z r docID := by
  unfold content tailOps tail getUpdates
  rw [hs, hu]

/-! ## recovery -/

theorem applyAll_eq (ops : Finset Op) (ps : List Bytes) (h : ∀ p ∈ ps, (E.decode p).isSome) :
    applyAll E ops ps = some (ops ∪ unionOps (payloadOps E) ps) := by
  induction ps generalizing ops with
  | nil => simp [applyAll, unionOps]
  | cons p ps ih =>
    obtain ⟨o, ho⟩ := isSome_iff_exists.mp (h p (by simp))
    have hp : payloadOps E p = o := by rw [payloadOps, ho]; rfl
    rw [applyAll, Engine.applyUpdate, ho, map_some, bind_some, ih (ops ∪ o) fun q hq => h q (by simp [hq])]
    rw [unionOps, hp, Finset.union_assoc]

def replayVersion (version : Nat) : List Update → Nat
  | [] => version
  | u :: us => replayVersion (if u.version > version then u.version else version) us

theorem replay_eq (ops : Finset Op) (version : Nat) (us : List Update) (h : ∀ u ∈ us, (E.decode u.data).isSome) :
    replay E ops version us = some (ops ∪ unionOps (fun u => payloadOps E u.data) us, replayVersion version us) := by
  induction us generalizing ops version with
  | nil => simp [replay, unionOps, replayVersion]
  | cons u us ih =>
    obtain ⟨o, ho⟩ := isSome_iff_exists.mp (h u (by simp))
    have hu : payloadOps E u.data = o := by rw [payloadOps, ho]; rfl
    rw [replay, Engine.applyUpdate, ho, map_some, bind_some, ih _ _ fun w hw => h w (by simp [hw])]
    rw [unionOps, hu, Finset.union_assoc, replayVersion]

theorem le_replayVersion (version : Nat) (us : List Update) :
    version ≤ replayVersion version us ∧ ∀ u ∈ us, u.version ≤ replayVersion version us := by
  induction us generalizing version with
  | nil => exact ⟨Nat.le_refl _, by simp⟩
  | cons u us ih =>
    obtain ⟨h1, h2⟩ := ih (if u.version > version then u.version else version)
    refine ⟨?_, ?_⟩
    · rw [replayVersion]
      split at h1 <;> rename_i hv <;> simp only [hv] <;> simp <;> omega
    intro w hw
    rw [replayVersion]
    rcases mem_cons.mp hw with rfl | hw
    · split at h1 <;> rename_i hv <;> simp only [hv] <;> simp <;> omega
    · exact h2 w hw

theorem mapM_decompress (l : List Snapshot) (h : ∀ s ∈ l, (readSnapshot E Z s).isSome) :
    ∃ ps, l.mapM (decompress Z) = some ps ∧ ps.length = l.length ∧
      (∀ p ∈ ps, (E.decode p).isSome) ∧ unionOps (payloadOps E) ps = unionOps (snapOps E Z) l := by
  induction l with
  | nil => exact ⟨[], rfl, rfl, by simp, rfl⟩
  | cons s l ih =>
    obtain ⟨ps, hps, hlen, hdec, hops⟩ := ih fun t ht => h t (by simp [ht])
    obtain ⟨o, ho⟩ := isSome_iff_exists.mp (h s (by simp))
    obtain ⟨p, hp, hpo⟩ := bind_eq_some_iff.mp ho
    refine ⟨p :: ps, ?_, by simp [hlen], ?_, ?_⟩
    · simp [mapM_cons, hp, hps]
    · intro q hq
      rcases mem_cons.mp hq with rfl | hq
      · simp [hpo]
      · exact hdec q hq
    · have h1 : payloadOps E p = o := by rw [payloadOps, hpo]; rfl
      have h2 : snapOps E Z s = o := by rw [snapOps, ho]; rfl
      rw [unionOps, unionOps, hops, h1, h2]

theorem reconstruct_ok (hr : Readable E Z repo docID) (hne : repo.snapshots docID ≠ []) :
    ∃ ps fromID, reconstruct Z repo docID = .ok (ps, lastVersion (repo.snapshots docID), fromID) ∧
      ps.length ≠ 0 ∧ (∀ p ∈ ps, (E.decode p).isSome) ∧
      unionOps (payloadOps E) ps = chainOps E Z (repo.snapshots docID) := by
  have hc := chain_ne_nil (p := isFull) hne
  obtain ⟨ps, hps, hlen, hdec, hops⟩ := mapM_decompress E Z (chain isFull (repo.snapshots docID))
    fun s hs => hr.snaps s (mem_of_mem_chain hs)
  obtain ⟨first, hfirst⟩ : ∃ a, (chain isFull (repo.snapshots docID)).head? = some a :=
    ⟨_, head?_eq_some_head hc⟩
  obtain ⟨newest, hnew⟩ : ∃ a, (chain isFull (repo.snapshots docID)).getLast? = some a :=
    ⟨_, getLast?_eq_some_getLast hc⟩
  have hv : newest.version = lastVersion (repo.snapshots docID) := by
    rw [lastVersion, ← chain_getLast? (p := isFull), hnew]
    rfl
  refine ⟨ps, first.id, ?_, ?_, hdec, hops⟩
  · unfold reconstruct getSnapshots
    rw [if_neg (by simpa using hne)]
    simp only [hps, hfirst, hnew, hv]
  · rw [hlen]
    simpa using hc

theorem reconstruct_none (h : repo.snapshots docID = []) :
    reconstruct Z repo docID = .error .snapshotNotFound := by
  unfold reconstruct getSnapshots
  rw [if_pos (by simp [h])]

theorem recoverTail_ok (ops : Finset Op) {payloads : Nat} (snapVersion : Nat) (fromID : String)
    {us : List Update} (hne : ¬ (payloads = 0 ∧ us.length = 0)) (hdec : ∀ u ∈ us, (E.decode u.data).isSome) :
    ∃ r, recoverTail E ops payloads snapVersion fromID us = .ok r ∧
      r.ops = ops ∪ unionOps (fun u => payloadOps E u.data) us ∧
      snapVersion ≤ r.version ∧ ∀ u ∈ us, u.version ≤ r.version := by
  have hperm := perm_insertionSort (fun a b : Update => a.version ≤ b.version) us
  have hle := le_replayVersion snapVersion (us.insertionSort fun a b : Update => a.version ≤ b.version)
  have hver : verify E (E.encodeVector (ops ∪ unionOps (fun u => payloadOps E u.data) us))
      (replayVersion snapVersion (us.insertionSort fun a b => a.version ≤ b.version))
      snapVersion = true := by
    obtain ⟨v, hv, -⟩ := E.decodeStateVector_encode (ops ∪ unionOps (fun u => payloadOps E u.data) us)
    unfold verify
    rw [hv]
    simpa using hle.1
  unfold recoverTail
  rw [if_neg hne, replay_eq E ops snapVersion _ fun u hu => hdec u (hperm.mem_iff.mp hu), unionOps_perm _ hperm]
  simp only [hver, if_true]
  exact ⟨_, rfl, rfl, hle.1, fun u hu => hle.2 u (hperm.mem_iff.mpr hu)⟩

/-- **A recovery gives exactly the durable content.** -/
theorem recoverDocument_ok (hr : Readable E Z repo docID) (hs : Stored repo docID) :
    ∃ r, recoverDocument E Z repo docID = .ok r ∧ r.ops = content E Z repo docID ∧
      lastVersion (repo.snapshots docID) ≤ r.version ∧
      ∀ u ∈ tail repo docID, u.version ≤ r.version := by
  have htail : ∀ u ∈ tail repo docID, (E.decode u.data).isSome :=
    fun u hu => hr.log u (mem_tail.mp hu).1
  unfold recoverDocument recoverBase
  by_cases hne : repo.snapshots docID = []
  · rw [reconstruct_none Z hne]
    have ht : repo.getUpdates docID 0 = tail repo docID := by rw [tail, hne, lastVersion_nil]
    have h0 : ¬ (0 = 0 ∧ (tail repo docID).length = 0) := by
      rintro ⟨-, h⟩
      exact (hs.resolve_left fun h' => h' hne) (length_eq_zero_iff.mp h)
    simp only [ht]
    obtain ⟨r, hrec, hops, hv, hu⟩ := recoverTail_ok E ∅ 0 "" h0 htail
    refine ⟨r, hrec, ?_, ?_, hu⟩
    · rw [hops, content, hne, chainOps_nil]
      rfl
    · rw [hne, lastVersion_nil]
      exact hv
  · obtain ⟨ps, fromID, hrecon, hlen, hdec, hch⟩ := reconstruct_ok E Z hr hne
    rw [hrecon]
    have h0 : ¬ (ps.length = 0 ∧ (tail repo docID).length = 0) := fun h => hlen h.1
    simp only [applyAll_eq E ∅ ps hdec]
    obtain ⟨r, hrec, hops, hv, hu⟩ := recoverTail_ok E
      (∅ ∪ unionOps (payloadOps E) ps) (lastVersion (repo.snapshots docID)) fromID h0 htail
    refine ⟨r, hrec, ?_, hv, hu⟩
    rw [hops, Finset.empty_union, hch]
    rfl

theorem recoverDocument_none (hs : ¬ Stored repo docID) :
    recoverDocument E Z repo docID = .error .documentNotFound := by
  obtain ⟨h1, h2⟩ := not_or.mp hs
  have hne : repo.snapshots docID = [] := not_not.mp h1
  have ht : repo.getUpdates docID 0 = [] := by
    have := not_not.mp h2
    rwa [tail, hne, lastVersion_nil] at this
  unfold recoverDocument recoverBase
  rw [reconstruct_none Z hne]
  simp only [ht]
  rfl

/-! ## capture -/

variable (M : SnapshotManager)

theorem maybeCompress_eq (data : Bytes) :
    maybeCompress Z M data = (data, false) ∨ maybeCompress Z M data = (Z.deflate data, true) := by
  unfold maybeCompress
  split
  · exact .inl rfl
  split
  · exact .inl rfl
  · exact .inr rfl

theorem describe_decompress (id docID : String) (kind : SnapshotKind) (sv raw : Bytes) (base version : Nat) :
    decompress Z (M.describe Z id docID kind sv raw base version) = some raw := by
  unfold decompress describe
  rcases maybeCompress_eq Z M raw with h | h
  · simp [h]
  · simp [h, Z.inflate_deflate]

theorem readSnapshot_describe (id docID : String) (kind : SnapshotKind) (sv raw : Bytes) (base version : Nat) :
    readSnapshot E Z (M.describe Z id docID kind sv raw base version) = E.decode raw := by
  rw [readSnapshot, describe_decompress, bind_some]

variable (kind : SnapshotKind) (base : Option E.Vector)

/-- operations of the payload of a snapshot of kind `kind` -/
def payloadSet (ops : Finset Op) : Finset Op :=
  match kind, base with
  | .incremental, some v => ops.filter fun o => E.covers v o = false
  | _, _ => ops

theorem decode_encodePayload (ops : Finset Op) :
    E.decode (encodePayload E kind base ops) = some (payloadSet E kind base ops) := by
  cases kind with
  | full =>
    cases base <;> exact E.decode_full ops
  | incremental =>
    cases base with
    | none => exact E.decode_full ops
    | some v => exact E.decode_delta ops v

/-- the vector of the newest snapshot covers only operations of the chain -/
def VectorSound : Prop :=
  ∀ s, snaps.getLast? = some s → ∀ v, E.decodeStateVector s.stateVector = some v →
    ∀ o, E.covers v o = true → o ∈ chainOps E Z snaps

/-- `kind` and `base` can be a plan over the stored snapshots: full, or relative to the vector of
the newest one -/
def PlannedOn : Prop :=
  kind = .full ∨ kind = .incremental ∧ ∃ s v, snaps.getLast? = some s ∧
    E.decodeStateVector s.stateVector = some v ∧ base = some v

theorem plan_incremental {M : SnapshotManager} {prev : SnapshotMeta} {v : E.Vector} (hT : M.incrementalThreshold ≠ 0)
    (hid : prev.lastSnapshotID ≠ "") (hm : prev.snapshotCount % M.incrementalThreshold ≠ 0)
    (hs : (repo.snapshots docID).getLast? = some s) (hv : E.decodeStateVector s.stateVector = some v) :
    M.plan E repo docID prev = (.incremental, some v, s.version) := by
  have h1 : ¬ (M.incrementalThreshold = 0 ∨ prev.snapshotCount = 0 ∨ prev.lastSnapshotID = "") := by
    rintro (h | h | h)
    · exact hT h
    · rw [h] at hm
      exact hm (Nat.zero_mod _)
    · exact hid h
  unfold plan getLatestSnapshot
  simp only [if_neg h1, if_neg hm, hs, hv]

theorem plan_cases (repo : Repository) (docID : String) (prev : SnapshotMeta) :
    M.plan E repo docID prev = (.full, none, 0) ∨
      M.incrementalThreshold ≠ 0 ∧ prev.snapshotCount % M.incrementalThreshold ≠ 0 ∧
      ∃ s v, (repo.snapshots docID).getLast? = some s ∧ E.decodeStateVector s.stateVector = some v ∧
        M.plan E repo docID prev = (.incremental, some v, s.version) := by
  by_cases h1 : M.incrementalThreshold = 0 ∨ prev.snapshotCount = 0 ∨ prev.lastSnapshotID = ""
  · left
    unfold plan
    rw [if_pos h1]
  by_cases h2 : prev.snapshotCount % M.incrementalThreshold = 0
  · left
    unfold plan
    rw [if_neg h1, if_pos h2]
  cases hl : (repo.snapshots docID).getLast? with
  | none =>
    left
    unfold plan getLatestSnapshot
    rw [if_neg h1, if_neg h2, hl]
  | some s =>
    cases hv : E.decodeStateVector s.stateVector with
    | none =>
      left
      unfold plan getLatestSnapshot
      simp only [if_neg h1, if_neg h2, hl, hv]
    | some v =>
      have hT : M.incrementalThreshold ≠ 0 := fun h => h1 (.inl h)
      have hid : prev.lastSnapshotID ≠ "" := fun h => h1 (.inr (.inr h))
      exact .inr ⟨hT, h2, s, v, rfl, hv, plan_incremental E hT hid h2 hl hv⟩

theorem plan_plannedOn (repo : Repository) (docID : String) (prev : SnapshotMeta) :
    PlannedOn E (repo.snapshots docID) (M.plan E repo docID prev).1 (M.plan E repo docID prev).2.1 := by
  rcases plan_cases E M repo docID prev with h | ⟨-, -, s, v, hs, hv, h⟩
  · exact .inl (by rw [h])
  · exact .inr ⟨by rw [h], s, v, hs, hv, by rw [h]⟩

section
variable {E Z} {snaps : List Snapshot} {snap : Snapshot} {base : Option E.Vector}
  {ops : Finset Op}

/-- **A capture completes its base to the captured document.** -/
theorem capture_covers (hs : VectorSound E Z snaps) (hp : PlannedOn E snaps snap.kind base)
    (hops : snapOps E Z snap = payloadSet E snap.kind base ops) : ops ⊆ chainOps E Z (snaps ++ [snap]) := by
  intro o ho
  rcases hp with hk | ⟨hk, s, v, hl, hv, hb⟩
  · rw [chainOps_snoc_full E Z snaps hk, hops, hk]
    exact ho
  rw [chainOps_snoc_incremental E Z snaps hk, Finset.mem_union, hops, hk, hb]
  cases hc : E.covers v o with
  | true => exact .inl (hs s hl v hv o hc)
  | false => exact .inr (Finset.mem_filter.mpr ⟨ho, hc⟩)

theorem vectorSound_snoc {d : Finset Op} (hv : snap.stateVector = E.encodeVector d)
    (hd : d ⊆ chainOps E Z (snaps ++ [snap])) : VectorSound E Z (snaps ++ [snap]) := by
  intro s hs v hdec o ho
  have : s = snap := by simpa using hs.symm
  subst this
  obtain ⟨w, hw, hc⟩ := E.decodeStateVector_encode d
  rw [hv, hw] at hdec
  cases hdec
  exact hd ((hc o).mp ho)

def kept (R : Nat) (snaps : List Snapshot) : List Snapshot := snaps.drop (snaps.length - R)

variable {R : Nat}

theorem kept_getLast? (hR : 1 ≤ R) (snaps : List Snapshot) : (kept R snaps).getLast? = snaps.getLast? := by
  unfold kept
  rw [getLast?_drop]
  split
  · rename_i h
    have : snaps = [] := length_eq_zero_iff.mp (by omega)
    simp [this]
  · rfl

theorem kept_kept_snoc (hR : 1 ≤ R) (snaps : List Snapshot) (s : Snapshot) :
    kept R (kept R snaps ++ [s]) = kept R (snaps ++ [s]) := by
  obtain ⟨R, rfl⟩ : ∃ k, R = k + 1 := ⟨R - 1, by omega⟩
  unfold kept
  rw [drop_snoc, drop_snoc, drop_drop, length_drop]
  congr 2
  omega

theorem kept_lastVersion (hR : 1 ≤ R) (snaps : List Snapshot) : lastVersion (kept R snaps) = lastVersion snaps := by
  unfold lastVersion
  rw [kept_getLast? hR]

variable (E Z) in
theorem kept_chainOps (snaps : List Snapshot) (h : (chain isFull snaps).length ≤ R) :
    chainOps E Z (kept R snaps) = chainOps E Z snaps := by
  unfold chainOps kept
  rw [chain_keep snaps R h]

theorem kept_vectorSound (hR : 1 ≤ R) (hv : VectorSound E Z snaps)
    (h : (chain isFull snaps).length ≤ R) : VectorSound E Z (kept R snaps) := by
  intro s hs v hdec o ho
  rw [kept_chainOps E Z snaps h]
  exact hv s (by rwa [kept_getLast? hR] at hs) v hdec o ho

end

end

end Collab
