import Cpip.Collab.Race

/-!
# Collaboration engine: every calm step keeps the invariant

One lemma per access of a call (`keeps_applyDoc`, `keeps_applyMark`, …), assembled in `calm_step`
and, by the rule for pools of threads, in `calm_run`.
-/

set_option linter.unusedSectionVars false

namespace Collab

open List Option Pool

open Function (update update_of_ne update_self)

section
variable {Op : Type} [DecidableEq Op] {E : Engine Op} {Z : Gzip} {cfg : Config} {d : String}
  {h0 : Nat} {stay : Prop} {sys : Sys (State Op) (Thread E.Vector Op)} {i : Nat} {c : Call}

theorem edited_archived : DocumentState.edited .archived = .archived := by decide

theorem keeps_failed {r : Except Err (Option Nat)} (hi : RaceInv E Z d h0 stay sys) (hd : c.docID = d)
    (hr : (Pc.done r : Pc E.Vector Op).logged = false) : RaceKeeps E Z d h0 stay sys i ⟨c, .done r⟩ sys.shared := by
  refine keeps_read hi ⟨hd, nofun, fun u _ h => ?_, fun _ => rfl, trivial⟩ rfl fun w v h => by cases h
  rw [hr] at h
  cases h

variable (E Z cfg d h0 stay sys i c) in
def KeepsAt (pc : Pc E.Vector Op) : Prop :=
  RaceInv E Z d h0 stay sys → ∀ ⦃pc' m⦄, sys.pool i = some ⟨c, pc⟩ → Pc.next E Z cfg d sys.shared pc = some (pc', m) →
    RaceKeeps E Z d h0 stay sys i ⟨c, pc'⟩ m

/-! ## edits -/

variable {u : Bytes}

theorem keeps_applyGet : KeepsAt E Z cfg d h0 stay sys i c (.applyGet u) := by
  intro hi pc' m ht hn
  have hL := hi.each i _ ht
  simp only [Pc.next, some.injEq] at hn
  split at hn
  · cases hn
    exact keeps_failed hi hL.doc rfl
  split at hn
  · cases hn
    exact keeps_failed hi hL.doc rfl
  rename_i e he
  cases hn
  exact keeps_read hi ⟨hL.doc, nofun, nofun, fun _ => rfl, hL.pc, (hi.shared.live e he).1⟩ rfl nofun

variable {h : Nat}

theorem keeps_applySize : KeepsAt E Z cfg d h0 stay sys i c (.applySize u h) := by
  intro hi pc' m ht hn
  have hL := hi.each i _ ht
  simp only [Pc.next, some.injEq] at hn
  split at hn
  · cases hn
    exact keeps_failed hi hL.doc rfl
  · cases hn
    exact keeps_read hi ⟨hL.doc, nofun, nofun, fun _ => rfl, hL.pc⟩ rfl nofun

theorem keeps_applyDoc (hcalm : ∀ j w, sys.pool j = some w → w.pc.encoding = false) :
    KeepsAt E Z cfg d h0 stay sys i c (.applyDoc u h) := by
  intro hi pc' m ht hn
  have hL := hi.each i _ ht
  obtain ⟨hc, rfl⟩ := hL.pc
  simp only [Pc.next, some.injEq] at hn
  split at hn
  · cases hn
    exact keeps_failed hi hL.doc rfl
  rename_i ops hops
  cases hn
  obtain ⟨o, ho, rfl⟩ := Engine.applyUpdate_eq hops
  have hnew : State.ops { sys.shared with
      docs := update sys.shared.docs h
        { sys.shared.docs h with ops := sys.shared.ops h ∪ o } } h = sys.shared.ops h ∪ o := by
    simp [State.ops]
  have q : Quiet d h sys.shared { sys.shared with
      docs := update sys.shared.docs h
        { sys.shared.docs h with ops := sys.shared.ops h ∪ o } } :=
    ⟨rfl, id, by rw [hnew]; exact Finset.subset_union_left, fun _ hu _ => hu,
      fun e he => ⟨e, he, rfl, Nat.le_refl _, id⟩⟩
  refine keeps_quiet hi q (q.solid hi.shared (fun u hu => .inl hu) hi.shared.loaded)
    ⟨hL.doc, fun h => (by cases h), fun _ _ h => (by cases h), fun _ => rfl, hc, by simp [ho], ?_⟩
    (fun j w _ hw hp => (hi.each j w hw).holds hp) ?_ (fun _ _ _ _ _ _ _ x hx _ => .inl hx)
    (fun _ _ _ _ => apart_free rfl fun _ _ h => (by cases h))
  · rw [hnew, payloadOps, ho]
    exact Finset.subset_union_right
  intro j w _ hw henc
  rw [hcalm j w hw] at henc
  cases henc

theorem keeps_applyMark (hcalm : stay ∨ (sys.shared.registry d).isSome) :
    KeepsAt E Z cfg d h0 stay sys i c (.applyMark u h) := by
  intro hi pc' m ht hn
  have hL := hi.each i _ ht
  obtain ⟨hc, hdec, hops⟩ := hL.pc
  obtain ⟨e, he⟩ : ∃ e, sys.shared.registry d = some e := by
    rcases hcalm with hs | hs
    · exact isSome_iff_exists.mp (hi.shared.loaded hs)
    · exact isSome_iff_exists.mp hs
  obtain ⟨hdoc, hver⟩ := hi.shared.live e he
  simp only [Pc.next, Registry.markEdited, he, some.injEq, Prod.mk.injEq] at hn
  obtain ⟨rfl, rfl⟩ := hn
  have hreg : update sys.shared.registry d (some e.markEdited) d = some e.markEdited := update_self ..
  have q : Quiet d h0 sys.shared { sys.shared with
      registry := update sys.shared.registry d (some e.markEdited) } := by
    refine .entry he rfl (Nat.le_succ _) fun ha => ?_
    show e.state.edited = _
    rw [ha]
    exact edited_archived
  refine keeps_registry hi q (fun _ => isSome_iff_exists.mpr ⟨_, hreg⟩) rfl rfl
    ⟨hL.doc, fun h => (by cases h), fun _ _ h => (by cases h), fun _ => rfl, hc, hdec, hops, Nat.succ_pos _,
      fun hv => ?_⟩
    (fun j w _ hw hp => ?_) (fun j w _ hw => ⟨⟨fun h => (by cases h), fun _ _ _ _ h => (by cases h)⟩, fun _ => rfl, ?_⟩)
  · have : lastVersion (snaps d sys.shared) ≤ e.version := hver
    exact absurd hv (by rw [show snaps d _ = snaps d sys.shared from q.same]; omega)
  · obtain ⟨e', he', hst⟩ := (hi.each j w hw).holds hp
    cases he.symm.trans he'
    refine ⟨e.markEdited, hreg, ?_⟩
    show e.state.edited = _
    exact (DocumentState.edited_pending _).mpr hst
  · intro k snap x v hw' hx hv
    have hst := (hi.each j w hw).pc
    rw [hw'] at hst
    have := Storable.version hst e he
    cases hx
    omega

theorem keeps_applySave {v : Nat} : KeepsAt E Z cfg d h0 stay sys i c (.applySave u v) := by
  intro hi pc' m ht hn
  have hL := hi.each i _ ht
  obtain ⟨hc, hdec, hops, hpos, hold⟩ := hL.pc
  obtain ⟨rfl, rfl⟩ := hn
  have hup : (sys.shared.repo.saveUpdate ⟨newID "up" sys.shared.nextID, d, u, v⟩).updates d
      = sys.shared.repo.updates d ++ [⟨newID "up" sys.shared.nextID, d, u, v⟩] :=
    update_self ..
  have q : Quiet d h0 sys.shared { sys.shared with
      repo := sys.shared.repo.saveUpdate ⟨newID "up" sys.shared.nextID, d, u, v⟩
      nextID := sys.shared.nextID + 1 } := by
    refine ⟨rfl, id, Finset.Subset.refl _, fun x hx _ => ?_, fun e he => ⟨e, he, rfl, Nat.le_refl _, id⟩⟩
    rw [hup]
    exact mem_append_left _ hx
  refine keeps_quiet hi q (q.solid hi.shared (fun x hx => ?_) hi.shared.loaded)
    ⟨hL.doc, nofun, fun w hw _ => ?_, fun _ => rfl, hc⟩
    (fun j w _ hw hp => (hi.each j w hw).holds hp) (fun _ _ _ _ _ => rfl)
    (fun j w hj hw k snap hk x hx hv => ?_) (fun _ _ _ _ => apart_free rfl nofun)
  · rw [hup] at hx
    rcases mem_append.mp hx with hx | hx
    · exact .inl hx
    · rw [mem_singleton.mp hx]
      exact .inr ⟨hdec, hops⟩
  · cases hc.symm.trans hw
    by_cases hv : v ≤ lastVersion (snaps d sys.shared)
    · -- the snapshot that subsumes the update was stored before the update was logged
      have hne : sys.shared.repo.snapshots d ≠ [] := by
        intro h0
        rw [snaps, h0, lastVersion_nil] at hv
        omega
      exact ⟨.inl hne, (hold hv).trans Finset.subset_union_left⟩
    · have hmem : ⟨newID "up" sys.shared.nextID, d, u, v⟩ ∈ tail
          (sys.shared.repo.saveUpdate ⟨newID "up" sys.shared.nextID, d, u, v⟩) d := by
        refine mem_tail.mpr ⟨by rw [hup]; simp, ?_⟩
        exact Nat.lt_of_not_le hv
      refine ⟨.inr (ne_nil_of_mem hmem), fun o ho => ?_⟩
      rw [content, Finset.mem_union, mem_tailOps]
      exact .inr ⟨_, (mem_tail.mp hmem).1, (mem_tail.mp hmem).2, ho⟩
  · dsimp only at hx
    rw [hup] at hx
    rcases mem_append.mp hx with hx | hx
    · exact .inl hx
    · rw [mem_singleton.mp hx] at hv ⊢
      exact .inr ((hi.pair j i w _ hj hw ht).marked k snap u v hk rfl hv)

theorem keeps_applyInfo : KeepsAt E Z cfg d h0 stay sys i c (.applyInfo u) := by
  intro hi pc' m ht hn
  have hL := hi.each i _ ht
  have hlog := fun w hw => hL.logged w hw rfl
  simp only [Pc.next, some.injEq, Prod.mk.injEq] at hn
  obtain ⟨hpc, rfl⟩ := hn
  split at hpc
  · subst hpc
    exact keeps_read hi ⟨hL.doc, nofun, fun w hw _ => hlog w hw, fun _ => rfl, trivial⟩ rfl nofun
  · subst hpc
    exact keeps_read hi ⟨hL.doc, nofun, fun w hw _ => hlog w hw, fun _ => rfl, trivial⟩ rfl nofun

/-! ## snapshots: planning and encoding -/

theorem finish_free (k : Cont) (r : Except Err Unit) : (k.finish r : Pc E.Vector Op).pending = false ∧
      ∀ w v, (k.finish r : Pc E.Vector Op) ≠ .applySave w v := by
  cases k <;> cases r <;> exact ⟨rfl, nofun⟩

variable {k : Cont}

theorem local_finish {m : State Op} (r : Except Err Unit) (hdoc : c.docID = d)
    (hlog : ∀ u, c = .apply d u → Logged E Z d m u) (hk : stay → k ≠ .archive) :
    Local E Z d h0 stay m ⟨c, k.finish r⟩ := by
  refine ⟨hdoc, fun h => ?_, fun u hu _ => hlog u hu, fun hs => ?_, ?_⟩
  · rw [(finish_free k r).1] at h
    cases h
  · have := hk hs
    cases k <;> cases r <;> first | rfl | exact absurd rfl this
  · cases k <;> cases r <;> trivial

theorem keeps_finish (r : Except Err Unit) (hi : RaceInv E Z d h0 stay sys) (hdoc : c.docID = d)
    (hlog : ∀ u, c = .apply d u → Logged E Z d sys.shared u) (hk : stay → k ≠ .archive) :
    RaceKeeps E Z d h0 stay sys i ⟨c, k.finish r⟩ sys.shared :=
  keeps_read hi (local_finish r hdoc hlog hk) (finish_free k r).1 (finish_free k r).2

theorem keeps_savePlan : KeepsAt E Z cfg d h0 stay sys i c (.savePlan k) := by
  intro hi pc' m ht hn
  have hL := hi.each i _ ht
  have hlog := fun w hw => hL.logged w hw rfl
  have hk : stay → k ≠ .archive := fun hs => of_decide_eq_false (hL.stays hs)
  simp only [Pc.next, Registry.planSnapshot, some.injEq] at hn
  cases he : sys.shared.registry d with
  | none =>
    simp only [he, map_none] at hn
    cases hn
    exact keeps_finish _ hi hL.doc hlog hk
  | some e =>
    simp only [he, map_some] at hn
    cases hn
    refine keeps_read hi ⟨hL.doc, nofun, fun w hw _ => hlog w hw,
      fun hs => decide_eq_false (hk hs), (hi.shared.live e he).1, fun e' he' => ?_⟩ rfl nofun
    cases he.symm.trans he'
    exact Nat.le_refl _

variable {plan : SnapshotPlan}

theorem keeps_savePending : KeepsAt E Z cfg d h0 stay sys i c (.savePending k plan) := by
  intro hi pc' m ht hn
  have hL := hi.each i _ ht
  have hlog := fun w hw => hL.logged w hw rfl
  have hk : stay → k ≠ .archive := fun hs => of_decide_eq_false (hL.stays hs)
  simp only [Pc.next, some.injEq] at hn
  split at hn
  · cases hn
    exact keeps_finish _ hi hL.doc hlog hk
  rename_i reg hreg
  cases hn
  obtain ⟨e, he, hc, rfl⟩ := Registry.transition_eq hreg
  have hst := (canTransition_pending e.state).mp hc
  have hnone : ∀ j w, sys.pool j = some w → w.pc.pending = false := by
    intro j w hw
    by_contra hp
    obtain ⟨e', he', hs⟩ := (hi.each j w hw).holds (by simpa using hp)
    cases he.symm.trans he'
    rw [hs] at hst
    rcases hst with h | h <;> cases h
  have hself : update sys.shared.registry d (some { e with state := .snapshotPending }) d
      = some { e with state := .snapshotPending } := update_self ..
  have q : Quiet d h0 sys.shared { sys.shared with
      registry := update sys.shared.registry d (some { e with state := .snapshotPending }) } := by
    refine .entry he rfl (Nat.le_refl _) fun ha => ?_
    rw [ha] at hst
    rcases hst with h | h <;> cases h
  refine keeps_registry hi q (fun _ => isSome_iff_exists.mpr ⟨_, hself⟩) rfl rfl
    ⟨hL.doc, fun _ => ⟨_, hself, rfl⟩, fun w hw _ => logged_of (hlog w hw) q.stored q.content,
      fun hs => decide_eq_false (hk hs), q.planned hL.pc⟩
    (fun j w _ hw hp => ?_) (fun j w _ hw => ⟨⟨fun _ => hnone j w hw, nofun⟩, ⟨fun hp => ?_, nofun⟩⟩)
  · rw [hnone j w hw] at hp
    cases hp
  · rw [hnone j w hw] at hp
    cases hp

theorem keeps_saveBase : KeepsAt E Z cfg d h0 stay sys i c (.saveBase k plan) := by
  intro hi pc' m ht hn
  have hL := hi.each i _ ht
  cases hn
  exact keeps_same hi ⟨hL.doc, fun _ => hL.holds rfl, fun w hw _ => hL.logged w hw rfl, hL.stays,
      hL.pc, plan_plannedOn E cfg.snapMgr _ d plan.prev⟩
    fun j w hj hw => apart_held (hi.pair i j _ w (Ne.symm hj) ht hw) rfl nofun nofun

variable {bv : Nat}

theorem keeps_saveEncode {kind : SnapshotKind} {base : Option E.Vector} :
    KeepsAt E Z cfg d h0 stay sys i c (.saveEncode k plan kind base bv) := by
  intro hi pc' m ht hn
  have hL := hi.each i _ ht
  obtain ⟨hplan, hon⟩ := hL.pc
  cases hn
  have hdec := decode_encodePayload E kind base (sys.shared.ops h0)
  refine keeps_same hi ⟨hL.doc, fun _ => hL.holds rfl, fun w hw _ => hL.logged w hw rfl, hL.stays, hplan, ?_, ?_⟩
    fun j w hj hw => apart_held (hi.pair i j _ w (Ne.symm hj) ht hw) rfl nofun nofun
  · rw [hplan.1, hdec]
    rfl
  unfold nextOps payloadOps
  rw [hplan.1, hdec, getD_some]
  rcases hon with rfl | ⟨rfl, snap, v, hl, hv, rfl⟩
  · exact Finset.union_empty _
  apply Finset.Subset.antisymm
  · exact Finset.union_subset (Finset.filter_subset _ _) hi.shared.chain
  intro o ho
  rw [Finset.mem_union]
  cases hcov : E.covers v o with
  | true => exact .inr (hi.shared.sound snap hl v hv o hcov)
  | false => exact .inl (Finset.mem_filter.mpr ⟨ho, hcov⟩)

theorem chainOps_described {k : SnapshotKind} {s : State Op} {raw sv : Bytes} {version : Nat} {id : String}
    (M : SnapshotManager) : chainOps E Z (snaps d s ++ [M.describe Z id d k sv raw bv version])
      = nextOps E Z d s k raw := by
  have hso : snapOps E Z (M.describe Z id d k sv raw bv version) = payloadOps E raw := by
    rw [snapOps, readSnapshot_describe]
    rfl
  cases k with
  | full =>
    rw [chainOps_snoc_full E Z _ rfl, hso]
    exact (Finset.union_empty _).symm
  | incremental =>
    rw [chainOps_snoc_incremental E Z _ rfl, hso]
    exact Finset.union_comm _ _

theorem keeps_saveVector {kind : SnapshotKind} {raw : Bytes} :
    KeepsAt E Z cfg d h0 stay sys i c (.saveVector k plan kind bv raw) := by
  intro hi pc' m ht hn
  have hL := hi.each i _ ht
  obtain ⟨hplan, hdec, hops⟩ := hL.pc
  cases hn
  have q : Quiet d h0 sys.shared { sys.shared with nextID := sys.shared.nextID + 1 } :=
    ⟨rfl, id, Finset.Subset.refl _, fun _ hu _ => hu, fun e he => ⟨e, he, rfl, Nat.le_refl _, id⟩⟩
  have hnew : ∀ id sv, chainOps E Z (snaps d { sys.shared with nextID := sys.shared.nextID + 1 } ++
      [cfg.snapMgr.describe Z id d kind sv raw bv plan.version]) = sys.shared.ops h0 := by
    intro id sv
    rw [chainOps_described, ← hops]
    rfl
  refine keeps_registry hi q hi.shared.loaded rfl rfl
    ⟨hL.doc, fun _ => hL.holds rfl, fun w hw _ => logged_of (hL.logged w hw rfl) q.stored q.content,
      hL.stays, ⟨rfl, ?_, ⟨_, rfl, ?_⟩, ?_, ?_, ?_, hplan.2⟩⟩
    (fun j w _ hw hp => (hi.each j w hw).holds hp)
    (fun j w hj hw => apart_held (hi.pair i j _ w (Ne.symm hj) ht hw) rfl nofun ?_)
  · rw [readSnapshot_describe]
    exact hdec
  · rw [hnew, hplan.1]
  · rw [hnew]
    exact hi.shared.chain
  · rw [hnew]
    rfl
  · intro x hx _
    rw [hnew]
    exact hi.shared.log x hx
  · intro k' snap x v hk hx _
    cases hk
    rw [hnew]
    have hw := (hi.each j w hw).pc
    rw [hx] at hw
    exact hw.2.2.1

/-! ## snapshots: storing and pruning -/

variable {snap : Snapshot}

/-- **the snapshot is stored**: the content does not shrink -/
theorem keeps_saveStore : KeepsAt E Z cfg d h0 stay sys i c (.saveStore k snap) := by
  intro hi pc' m ht hn
  have hL := hi.each i _ ht
  have hS : Storable E Z d h0 sys.shared snap := hL.pc
  cases hn
  have hsn : (sys.shared.repo.saveSnapshot snap).snapshots d = snaps d sys.shared ++ [snap] := by
    unfold Repository.saveSnapshot
    rw [hS.docID]
    exact update_self ..
  have hst : Stored (sys.shared.repo.saveSnapshot snap) d := .inl (by rw [hsn]; simp)
  have hc : content E Z sys.shared.repo d ⊆ content E Z (sys.shared.repo.saveSnapshot snap) d := by
    intro o ho
    rw [content, Finset.mem_union, mem_tailOps] at ho ⊢
    rw [hsn, lastVersion_snoc]
    rcases ho with ho | ⟨u, hu, -, ho⟩
    · exact .inl (hS.extends_ ho)
    by_cases hv : u.version ≤ snap.version
    · exact .inl (hS.log u hu hv ho)
    · exact .inr ⟨u, hu, Nat.lt_of_not_le hv, ho⟩
  have hlast : lastVersion (snaps d { sys.shared with repo := sys.shared.repo.saveSnapshot snap })
      = snap.version := by
    rw [snaps, hsn, lastVersion_snoc]
  obtain ⟨D, hD, hsub⟩ := hS.vector
  refine keeps_restored hi ht rfl (fun _ _ h => by cases h) (fun _ _ h => by cases h) rfl rfl (fun _ => hst) hc ?_
    ⟨hi.shared.known, ⟨fun t ht => ?_, hi.shared.readable.log⟩, ?_, ?_, hi.shared.log, ?_, hi.shared.loaded⟩
    ⟨hL.doc, fun _ => hL.holds rfl, fun w hw _ => logged_of (hL.logged w hw rfl) (fun _ => hst) hc, hL.stays, hlast⟩
  · intro j u w v hj hu hpc hv
    rw [hlast] at hv
    rw [snaps, hsn]
    exact (hi.pair i j _ u (Ne.symm hj) ht hu).marked k snap w v rfl hpc hv
  · rw [hsn] at ht
    rcases mem_append.mp ht with ht | ht
    · exact hi.shared.readable.snaps t ht
    · rw [mem_singleton.mp ht]
      exact hS.readable
  · rw [snaps, hsn]
    exact vectorSound_snoc hD hsub
  · rw [snaps, hsn]
    exact hS.within
  intro e he
  rw [hlast]
  exact ⟨(hi.shared.live e he).1, hS.version e he⟩

theorem keeps_savePrune (hcalm : chainLength (snaps d sys.shared) ≤ cfg.snapMgr.retentionCount) :
    KeepsAt E Z cfg d h0 stay sys i c (.savePrune k snap) := by
  intro hi pc' m ht hn
  have hL := hi.each i _ ht
  have hR := cfg.snapMgr_retention_pos
  cases hn
  have hsn : (sys.shared.repo.pruneSnapshots d cfg.snapMgr.retentionCount).snapshots d
      = kept cfg.snapMgr.retentionCount (snaps d sys.shared) :=
    Repository.pruneSnapshots_snapshots ..
  have hup : (sys.shared.repo.pruneSnapshots d cfg.snapMgr.retentionCount).updates d
      = sys.shared.repo.updates d := by rw [Repository.pruneSnapshots_updates]
  have hch : chainOps E Z (kept cfg.snapMgr.retentionCount (snaps d sys.shared))
      = chainOps E Z (snaps d sys.shared) := kept_chainOps E Z _ hcalm
  have hlast := kept_lastVersion hR (snaps d sys.shared)
  have hc : content E Z (sys.shared.repo.pruneSnapshots d cfg.snapMgr.retentionCount) d
      = content E Z sys.shared.repo d := by
    unfold content tailOps tail Repository.getUpdates
    rw [hsn, hup, hch, hlast]
    rfl
  have hst : Stored sys.shared.repo d → Stored (sys.shared.repo.pruneSnapshots d cfg.snapMgr.retentionCount) d := by
    unfold Stored tail Repository.getUpdates
    rw [hsn, hup, hlast]
    rintro (h | h)
    · left
      intro h0
      have := kept_getLast? hR (snaps d sys.shared)
      rw [h0] at this
      exact h (getLast?_eq_none_iff.mp this.symm)
    · exact .inr h
  refine keeps_restored hi ht rfl nofun nofun rfl rfl hst hc.ge ?_
    ⟨?_, ⟨fun t ht => ?_, ?_⟩, ?_, ?_, ?_, ?_, hi.shared.loaded⟩
    ⟨hL.doc, fun _ => hL.holds rfl, fun w hw _ => logged_of (hL.logged w hw rfl) hst hc.ge, hL.stays, ?_⟩
  · intro j u w v hj hu hpc hv
    have hw := (hi.each j u hu).pc
    rw [hpc] at hw
    rw [snaps, hsn] at hv ⊢
    rw [hlast] at hv
    rw [hch]
    exact hw.2.2.2.2 hv
  · rw [Repository.pruneSnapshots_metadata]
    exact hi.shared.known
  · rw [hsn] at ht
    exact hi.shared.readable.snaps t (mem_of_mem_drop ht)
  · dsimp only
    rw [hup]
    exact hi.shared.readable.log
  · rw [snaps, hsn]
    exact kept_vectorSound hR hi.shared.sound hcalm
  · rw [snaps, hsn, hch]
    exact hi.shared.chain
  · dsimp only
    rw [hup]
    exact hi.shared.log
  · intro e he
    rw [snaps, hsn, hlast]
    exact hi.shared.live e he
  · show lastVersion (snaps d _) = _
    rw [snaps, hsn, hlast]
    exact hL.pc

theorem keeps_saveLog : KeepsAt E Z cfg d h0 stay sys i c (.saveLog k snap) := by
  intro hi pc' m ht hn
  have hL := hi.each i _ ht
  have hlast : lastVersion (snaps d sys.shared) = snap.version := hL.pc
  cases hn
  have hup : (sys.shared.repo.deleteUpdates d (snap.version + 1)).updates d
      = (sys.shared.repo.updates d).filter fun u => snap.version + 1 ≤ u.version :=
    update_self ..
  have q : Quiet d h0 sys.shared { sys.shared with
      repo := sys.shared.repo.deleteUpdates d (snap.version + 1) } := by
    refine ⟨rfl, id, Finset.Subset.refl _, fun u hu hv => ?_, fun e he => ⟨e, he, rfl, Nat.le_refl _, id⟩⟩
    rw [hlast] at hv
    rw [hup]
    exact mem_filter.mpr ⟨hu, decide_eq_true hv⟩
  refine keeps_quiet hi q (q.solid hi.shared (fun u hu => .inl ?_) hi.shared.loaded)
    ⟨hL.doc, fun _ => hL.holds rfl, fun w hw _ => logged_of (hL.logged w hw rfl) q.stored q.content,
      hL.stays, trivial⟩
    (fun j w _ hw hp => (hi.each j w hw).holds hp) (fun _ _ _ _ _ => rfl)
    (fun _ _ _ _ _ _ _ x hx _ => .inl ?_)
    (fun j w hj hw => apart_held (hi.pair i j _ w (Ne.symm hj) ht hw) rfl nofun nofun)
  · rw [hup] at hu
    exact mem_of_mem_filter hu
  rw [hup] at hx
  exact mem_of_mem_filter hx

theorem keeps_saveRecord : KeepsAt E Z cfg d h0 stay sys i c (.saveRecord k snap) := by
  intro hi pc' m ht hn
  have hL := hi.each i _ ht
  obtain ⟨e, he, hst⟩ := hL.holds rfl
  simp only [Pc.next, Registry.recordSnapshot, he, some.injEq] at hn
  cases hn
  have hself : update sys.shared.registry d (some (e.recordSnapshot snap)) d
      = some (e.recordSnapshot snap) := update_self ..
  have q : Quiet d h0 sys.shared { sys.shared with
      registry := update sys.shared.registry d (some (e.recordSnapshot snap)) } :=
    .entry he rfl (Nat.le_refl _) id
  exact keeps_registry hi q (fun _ => isSome_iff_exists.mpr ⟨_, hself⟩) rfl rfl ⟨hL.doc, fun _ => ⟨_, hself, hst⟩,
      fun w hw _ => logged_of (hL.logged w hw rfl) q.stored q.content, hL.stays, trivial⟩
    (fun _ _ _ _ _ => ⟨_, hself, hst⟩)
    (fun j w hj hw => apart_held (hi.pair i j _ w (Ne.symm hj) ht hw) rfl nofun nofun)

theorem keeps_savePersisted : KeepsAt E Z cfg d h0 stay sys i c (.savePersisted k) := by
  intro hi pc' m ht hn
  have hL := hi.each i _ ht
  have hk : stay → k ≠ .archive := fun hs => of_decide_eq_false (hL.stays hs)
  obtain ⟨e, he, hst⟩ := hL.holds rfl
  have hc : canTransition e.state .persisted = true := by rw [hst]; rfl
  simp only [Pc.next, Registry.transition_ok he hc, some.injEq] at hn
  cases hn
  have hself : update sys.shared.registry d (some { e with state := .persisted }) d
      = some { e with state := .persisted } := update_self ..
  have q : Quiet d h0 sys.shared { sys.shared with
      registry := update sys.shared.registry d (some { e with state := .persisted }) } := by
    refine .entry he rfl (Nat.le_refl _) fun ha => ?_
    rw [hst] at ha
    cases ha
  refine keeps_registry hi q (fun _ => isSome_iff_exists.mpr ⟨_, hself⟩) rfl rfl
    (local_finish _ hL.doc (fun w hw => logged_of (hL.logged w hw rfl) q.stored q.content) hk)
    (fun j w hj hw hp => ?_) (fun _ _ _ _ => apart_free (finish_free k _).1 (finish_free k _).2)
  rw [(hi.pair i j _ w (Ne.symm hj) ht hw).mutex rfl] at hp
  cases hp

/-! ## archivals -/

theorem keeps_archiveInfo : KeepsAt E Z cfg d h0 stay sys i c .archiveInfo := by
  intro hi pc' m ht hn
  have hL := hi.each i _ ht
  have hc : c = .archive d := hL.pc
  have hst : ¬ stay := fun hs => Bool.noConfusion (hL.stays hs)
  simp only [Pc.next, some.injEq] at hn
  split at hn
  · cases hn
    exact keeps_failed hi hL.doc rfl
  cases hn
  split
  · exact keeps_read hi ⟨hL.doc, nofun, fun u hu => (by cases hc.symm.trans hu),
      fun hs => absurd hs hst, trivial⟩ rfl nofun
  · exact keeps_read hi ⟨hL.doc, nofun, fun u hu => (by cases hc.symm.trans hu),
      fun hs => absurd hs hst, trivial⟩ rfl nofun

theorem keeps_archiveTransition : KeepsAt E Z cfg d h0 stay sys i c .archiveTransition := by
  intro hi pc' m ht hn
  have hL := hi.each i _ ht
  have hst : ¬ stay := fun hs => Bool.noConfusion (hL.stays hs)
  simp only [Pc.next, some.injEq] at hn
  split at hn
  · cases hn
    exact keeps_failed hi hL.doc rfl
  rename_i reg hreg
  cases hn
  obtain ⟨e, he, hc, rfl⟩ := Registry.transition_eq hreg
  have hself : update sys.shared.registry d (some { e with state := .archived }) d
      = some { e with state := .archived } := update_self ..
  have q : Quiet d h0 sys.shared { sys.shared with
      registry := update sys.shared.registry d (some { e with state := .archived }) } :=
    .entry he rfl (Nat.le_refl _) fun _ => rfl
  refine keeps_registry hi q (fun hs => absurd hs hst) rfl rfl
    ⟨hL.doc, nofun, fun w hw _ => logged_of (hL.logged w hw rfl) q.stored q.content,
      fun hs => absurd hs hst, fun e' he' => ?_⟩
    (fun j w _ hw hp => ?_) (fun _ _ _ _ => apart_free rfl nofun)
  · cases hself.symm.trans he'
    rfl
  obtain ⟨e', he', hs⟩ := (hi.each j w hw).holds hp
  cases he.symm.trans he'
  rw [hs] at hc
  cases hc

theorem keeps_archiveUnregister : KeepsAt E Z cfg d h0 stay sys i c .archiveUnregister := by
  intro hi pc' m ht hn
  have hL := hi.each i _ ht
  have hst : ¬ stay := fun hs => Bool.noConfusion (hL.stays hs)
  simp only [Pc.next, some.injEq] at hn
  split at hn
  · cases hn
    exact keeps_read hi ⟨hL.doc, nofun, fun w hw _ => hL.logged w hw rfl, fun _ => rfl, trivial⟩ rfl nofun
  · rename_i e he
    cases hn
    have hnone : update sys.shared.registry d none d = none := update_self ..
    have q : Quiet d h0 sys.shared { sys.shared with registry := sys.shared.registry.unregister d } :=
      ⟨rfl, id, Finset.Subset.refl _, fun _ hu _ => hu, fun e' he' => by cases hnone.symm.trans he'⟩
    refine keeps_registry hi q (fun hs => absurd hs hst) rfl rfl
      ⟨hL.doc, nofun, fun w hw _ => logged_of (hL.logged w hw rfl) q.stored q.content,
        fun hs => absurd hs hst, trivial⟩
      (fun j w _ hw hp => ?_) (fun _ _ _ _ => apart_free rfl nofun)
    obtain ⟨e', he', hs⟩ := (hi.each j w hw).holds hp
    have ha : e'.state = .archived := hL.pc e' he'
    rw [hs] at ha
    cases ha

theorem keeps_archiveDestroy : KeepsAt E Z cfg d h0 stay sys i c (.archiveDestroy h) := by
  intro hi pc' m ht hn
  have hL := hi.each i _ ht
  cases hn
  have hops := destroy_ops sys.shared h h0
  have q : Quiet d h0 sys.shared (sys.shared.destroy h) :=
    ⟨rfl, id, hops.ge, fun _ hu _ => hu, fun e he => ⟨e, he, rfl, Nat.le_refl _, id⟩⟩
  exact keeps_registry hi q hi.shared.loaded rfl hops
    ⟨hL.doc, nofun, fun w hw _ => logged_of (hL.logged w hw rfl) q.stored q.content, fun _ => rfl, trivial⟩
    (fun j w _ hw hp => (hi.each j w hw).holds hp) (fun _ _ _ _ => apart_free rfl nofun)

/-! ## runs -/

theorem takes_start (hc : Takes d stay c) (s : State Op) :
    Local E Z d h0 stay s ⟨c, c.start⟩ ∧ (c.start : Pc E.Vector Op).pending = false ∧
      ∀ w v, (c.start : Pc E.Vector Op) ≠ .applySave w v := by
  cases c with
  | apply x u =>
    cases hc
    exact ⟨⟨rfl, nofun, nofun, fun _ => rfl, rfl⟩, rfl, nofun⟩
  | save x =>
    cases hc
    exact ⟨⟨rfl, nofun, nofun, fun _ => rfl, trivial⟩, rfl, nofun⟩
  | archive x =>
    obtain ⟨rfl, hst⟩ := hc
    exact ⟨⟨rfl, nofun, nofun, fun hs => absurd hs hst, rfl⟩, rfl, nofun⟩
  | getOrCreate x r f | delete x => cases hc

/-- **Every calm step keeps the invariant.** -/
theorem calm_step {a : Ans} {t t' : Thread E.Vector Op} {m : State Op}
    (hi : RaceInv E Z d h0 stay sys) (hc : Calm E cfg d stay sys (.step i a))
    (ht : sys.pool i = some t) (hs : t.step E Z cfg sys.shared a = some (t', m)) :
    RaceKeeps E Z d h0 stay sys i t' m := by
  obtain ⟨rfl, hcalm⟩ := hc
  have hcalm := hcalm t ht
  have hL := hi.each i t ht
  obtain ⟨c, pc⟩ := t
  obtain ⟨pc', rfl, hn⟩ := Thread.step_ok E Z cfg hs
  rw [show c.docID = d from hL.doc] at hn
  cases pc with
  | applyGet u => exact keeps_applyGet hi ht hn
  | applySize u h => exact keeps_applySize hi ht hn
  | applyDoc u h => exact keeps_applyDoc hcalm hi ht hn
  | applyMark u h => exact keeps_applyMark hcalm hi ht hn
  | applySave u v => exact keeps_applySave hi ht hn
  | applyInfo u => exact keeps_applyInfo hi ht hn
  | savePlan k => exact keeps_savePlan hi ht hn
  | savePending k plan => exact keeps_savePending hi ht hn
  | saveBase k plan => exact keeps_saveBase hi ht hn
  | saveEncode k plan kind base bv => exact keeps_saveEncode hi ht hn
  | saveVector k plan kind bv raw => exact keeps_saveVector hi ht hn
  | saveStore k snap => exact keeps_saveStore hi ht hn
  | savePrune k snap => exact keeps_savePrune hcalm hi ht hn
  | saveLog k snap => exact keeps_saveLog hi ht hn
  | saveRecord k snap => exact keeps_saveRecord hi ht hn
  | savePersisted k => exact keeps_savePersisted hi ht hn
  | archiveInfo => exact keeps_archiveInfo hi ht hn
  | archiveTransition => exact keeps_archiveTransition hi ht hn
  | archiveUnregister => exact keeps_archiveUnregister hi ht hn
  | archiveDestroy h => exact keeps_archiveDestroy hi ht hn
  | done r => cases hn
  | _ => exact hL.pc.elim

/-- **The invariant holds after every calm run.** -/
theorem calm_run {s0 : State Op} {as : List (Act Call Ans)}
    {sys : Sys (State Op) (Thread E.Vector Op)} (h : Solid E Z d h0 stay s0)
    (hc : Lts.Along (engine E Z cfg).next (Calm E cfg d stay) (idle s0) as)
    (hr : Lts.run (engine E Z cfg).next (idle s0) as = some sys) : RaceInv E Z d h0 stay sys := by
  refine inv_run ⟨fun s i c hi hs => ?_, fun s i a t t' m hi hs ht hn => ?_⟩ (inv_idle h) hc hr
  · obtain ⟨hL, hp, hs⟩ := takes_start hs s.shared
    exact ⟨hL, fun j u _ => apart_free hp hs⟩
  · exact calm_step hi hs ht hn

end

end Collab
