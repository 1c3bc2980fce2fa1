import Cpip.Lib.Run
import Cpip.Collab.Calls

/-!
# Collaboration engine: durability of accepted edits, one call at a time

* `Safe`  a recovery gives back every accepted update, and what the next call relies on;
* `safe_step`, `safe_run`  **kept by every call**, when a chain always fits in the retention window
  (`incrementalThreshold ≤ retentionCount`).
-/

namespace Collab

open List

open Function (update_of_ne)

section
variable {Op : Type} [DecidableEq Op] (E : Engine Op) (Z : Gzip) (cfg : Config) (snaps : List Snapshot)

def chainLength : Nat := (Chain.chain Snapshot.isFull snaps).length

/-- the chain is no longer than the snapshots recorded since the last full one -/
def ChainBound (count : Nat) : Prop :=
  count = 0 ∨ cfg.snapMgr.incrementalThreshold = 0 ∨
    chainLength snaps ≤ (count - 1) % cfg.snapMgr.incrementalThreshold + 1

structure LiveSafe (s : State Op) (acc : List (String × Bytes)) (d : String) (e : DocumentEntry) : Prop where
  alloc : e.doc < s.nextDoc
  holds : ∀ u, (d, u) ∈ acc → payloadOps E u ⊆ s.ops e.doc
  full : content E Z s.repo d ⊆ s.ops e.doc
  version : lastVersion (s.repo.snapshots d) ≤ e.version
  bound : ChainBound cfg (s.repo.snapshots d) e.snapshot.snapshotCount

/-- **The invariant of a document.** -/
structure Safe (s : State Op) (acc : List (String × Bytes)) (d : String) : Prop where
  readable : Readable E Z s.repo d
  sound : VectorSound E Z (s.repo.snapshots d)
  stored : ∀ u, (d, u) ∈ acc → Stored s.repo d ∧ payloadOps E u ⊆ content E Z s.repo d
  newer : ∀ u ∈ s.repo.updates d, lastVersion (s.repo.snapshots d) < u.version
  live : ∀ e, s.registry d = some e → LiveSafe E Z cfg s acc d e
  fresh : s.repo.metadata d = none →
    s.registry d = none ∧ s.repo.snapshots d = [] ∧ s.repo.updates d = [] ∧ ∀ u, (d, u) ∉ acc

theorem safe_init (d : String) : Safe E Z cfg (State.init Op) [] d where
  readable := ⟨by simp [State.init, Repository.empty], by simp [State.init, Repository.empty]⟩
  sound := by simp [VectorSound, State.init, Repository.empty]
  stored := by simp
  newer := by simp [State.init, Repository.empty]
  live := by simp [State.init]
  fresh _ := ⟨rfl, rfl, rfl, by simp⟩

variable {E Z cfg} {s s' : State Op} {acc acc' : List (String × Bytes)} {d : String}

section
variable (h : Safe E Z cfg s acc d)
include h

theorem Safe.durable {u : Bytes} (hu : (d, u) ∈ acc) :
    ∃ r, recoverDocument E Z s.repo d = .ok r ∧ payloadOps E u ⊆ r.ops := by
  obtain ⟨hs, hc⟩ := h.stored u hu
  obtain ⟨r, hr, hops, -⟩ := recoverDocument_ok E Z h.readable hs
  exact ⟨r, hr, by rw [hops]; exact hc⟩

theorem Safe.frame
    (hs : s'.repo.snapshots d = s.repo.snapshots d) (hu : s'.repo.updates d = s.repo.updates d)
    (hm : s'.repo.metadata d = none → s.repo.metadata d = none) (hacc : ∀ u, (d, u) ∈ acc' → (d, u) ∈ acc)
    (hreg : ∀ e, s'.registry d = some e → s.registry d = some e)
    (hops : ∀ k < s.nextDoc, s.ops k ⊆ s'.ops k) (hnext : s.nextDoc ≤ s'.nextDoc) : Safe E Z cfg s' acc' d where
  readable := ⟨by rw [hs]; exact h.readable.snaps, by rw [hu]; exact h.readable.log⟩
  sound := by rw [hs]; exact h.sound
  stored u ha := by
    rw [stored_congr hs hu, content_congr hs hu]
    exact h.stored u (hacc u ha)
  newer := by rw [hs, hu]; exact h.newer
  live e he := by
    obtain ⟨halloc, hholds, hfull, hver, hb⟩ := h.live e (hreg e he)
    refine ⟨by omega, fun u ha => (hholds u (hacc u ha)).trans (hops _ halloc), ?_, ?_, ?_⟩
    · rw [content_congr hs hu]
      exact hfull.trans (hops _ halloc)
    · rw [hs]; exact hver
    · rw [hs]; exact hb
  fresh hnone := by
    obtain ⟨h1, h2, h3, h4⟩ := h.fresh (hm hnone)
    refine ⟨?_, by rw [hs, h2], by rw [hu, h3], fun u hu' => h4 u (hacc u hu')⟩
    cases he : s'.registry d with
    | none => rfl
    | some e => rw [hreg e he] at h1; cases h1

end

/-! ## snapshots -/

theorem chainLength_snoc (snap : Snapshot) : snap.kind = .full ∧ chainLength (snaps ++ [snap]) = 1 ∨
      snap.kind = .incremental ∧ chainLength (snaps ++ [snap]) = chainLength snaps + 1 := by
  unfold chainLength
  cases hk : snap.kind with
  | full =>
    left
    rw [Chain.chain_snoc_pos snaps snap (by rw [Snapshot.isFull, hk]; rfl)]
    exact ⟨rfl, rfl⟩
  | incremental =>
    right
    rw [Chain.chain_snoc_neg snaps snap (by rw [Snapshot.isFull, hk]; rfl), length_append]
    exact ⟨rfl, rfl⟩

theorem pred_mod_succ {n t : Nat} (h : n % t ≠ 0) : (n - 1) % t + 1 = n % t := by
  cases n with
  | zero => exact absurd (Nat.zero_mod t) h
  | succ n =>
    rcases Nat.eq_zero_or_pos t with rfl | ht
    · simp
    have hlt := Nat.mod_lt n ht
    have hn : n + 1 = n % t + 1 + t * (n / t) := by
      have := Nat.mod_add_div n t
      omega
    have hm : (n + 1) % t = (n % t + 1) % t := by
      rw [hn, Nat.add_mul_mod_self_left]
    rw [Nat.add_sub_cancel, hm]
    rw [hm] at h
    rcases Nat.lt_or_ge (n % t + 1) t with h1 | h1
    · rw [Nat.mod_eq_of_lt h1]
    · rw [show n % t + 1 = t by omega, Nat.mod_self] at h
      exact absurd rfl h

variable {e : DocumentEntry} {ops : Finset Op} {x : String} {update : Bytes}

/-- the bound is kept by a snapshot, and gives its chain room in a window as long as the
threshold -/
theorem chainBound_captured (hb : ChainBound cfg (s.repo.snapshots d) e.snapshot.snapshotCount) :
    ChainBound cfg (s.repo.snapshots d ++ [captured E Z cfg s d e]) (e.snapshot.snapshotCount + 1) ∧
      ∀ R, 1 ≤ R → cfg.snapMgr.incrementalThreshold ≤ R →
        chainLength (s.repo.snapshots d ++ [captured E Z cfg s d e]) ≤ R := by
  rcases chainLength_snoc (s.repo.snapshots d) (captured E Z cfg s d e) with ⟨-, h1⟩ | ⟨hk, h1⟩
  · rw [h1]
    refine ⟨.inr (.inr ?_), fun R hR _ => hR⟩
    omega
  · rw [captured_kind] at hk
    rcases plan_cases E cfg.snapMgr s.repo d e.snapshot with hp | ⟨hT, hm, -⟩
    · rw [hp] at hk
      cases hk
    have hc : e.snapshot.snapshotCount ≠ 0 := by
      intro h
      rw [h] at hm
      exact hm (Nat.zero_mod _)
    have hpos : 0 < cfg.snapMgr.incrementalThreshold := Nat.pos_of_ne_zero hT
    have hlen := (hb.resolve_left hc).resolve_left hT
    have hmod := pred_mod_succ hm
    have hlt := Nat.mod_lt e.snapshot.snapshotCount hpos
    refine ⟨.inr (.inr ?_), fun R _ hR => ?_⟩
    · rw [h1, Nat.add_sub_cancel]
      omega
    · rw [h1]
      omega

theorem captured_covers (hv : VectorSound E Z (s.repo.snapshots d)) :
    s.ops e.doc ⊆ chainOps E Z (s.repo.snapshots d ++ [captured E Z cfg s d e]) := by
  refine capture_covers hv (plan_plannedOn E cfg.snapMgr s.repo d e.snapshot) ?_
  rw [snapOps, captured_read]
  rfl

theorem captured_within (hc : chainOps E Z (s.repo.snapshots d) ⊆ s.ops e.doc) :
    chainOps E Z (s.repo.snapshots d ++ [captured E Z cfg s d e]) ⊆ s.ops e.doc := by
  have hsub : snapOps E Z (captured E Z cfg s d e) ⊆ s.ops e.doc := by
    rw [snapOps, captured_read, Option.getD_some]
    unfold payloadSet
    split
    · exact Finset.filter_subset _ _
    · exact Finset.Subset.refl _
  cases hk : (captured E Z cfg s d e).kind with
  | full =>
    rw [chainOps_snoc_full E Z _ hk]
    exact hsub
  | incremental =>
    rw [chainOps_snoc_incremental E Z _ hk]
    exact Finset.union_subset hc hsub

section
variable (h : Safe E Z cfg s acc d) (hR : 1 ≤ cfg.snapMgr.retentionCount)
  (hT : cfg.snapMgr.incrementalThreshold ≤ cfg.snapMgr.retentionCount)
include h

theorem Safe.log_full (hl : LiveSafe E Z cfg s acc d e) {u : Update}
    (hu : u ∈ s.repo.updates d) : payloadOps E u.data ⊆ s.ops e.doc := by
  intro o ho
  refine hl.full ?_
  rw [content, Finset.mem_union, mem_tailOps]
  exact .inr ⟨u, hu, h.newer u hu, ho⟩

include hR in
theorem Safe.saved (he : s.registry d = some e)
    (hfit : chainLength (s.repo.snapshots d ++ [captured E Z cfg s d e]) ≤ cfg.snapMgr.retentionCount) :
    Safe E Z cfg (saved E Z cfg s d e) acc d := by
  have hl := h.live e he
  have hcov : s.ops e.doc ⊆ chainOps E Z ((Collab.saved E Z cfg s d e).repo.snapshots d) := by
    rw [saved_snapshots, kept_chainOps E Z _ hfit]
    exact captured_covers h.sound
  have hver : lastVersion ((Collab.saved E Z cfg s d e).repo.snapshots d) = e.version := by
    rw [saved_snapshots, kept_lastVersion hR, lastVersion_snoc, captured_version]
  have hne := saved_ne_nil E Z cfg s d e
  refine ⟨h.readable.saved E Z cfg s e, ?_, ?_, ?_, ?_, ?_⟩
  · rw [saved_snapshots]
    exact kept_vectorSound hR (vectorSound_snoc rfl (captured_covers h.sound)) hfit
  · intro u hu
    exact ⟨.inl hne, ((hl.holds u hu).trans hcov).trans Finset.subset_union_left⟩
  · intro u hu
    rw [saved_updates] at hu
    rw [hver]
    exact of_decide_eq_true (mem_filter.mp hu).2
  · intro e' he'
    have : { e.recordSnapshot (captured E Z cfg s d e) with state := .persisted } = e' := by
      simpa [Collab.saved] using he'
    subst this
    refine ⟨hl.alloc, hl.holds, ?_, hver.le, ?_⟩
    · intro o ho
      rw [content, Finset.mem_union, mem_tailOps] at ho
      rcases ho with ho | ⟨u, hu, -, ho⟩
      · rw [saved_snapshots, kept_chainOps E Z _ hfit] at ho
        exact captured_within (Finset.subset_union_left.trans hl.full) ho
      · rw [saved_updates] at hu
        exact h.log_full hl (mem_of_mem_filter hu) ho
    have hb := (chainBound_captured (E := E) (Z := Z) hl.bound).1
    unfold ChainBound chainLength at hb ⊢
    rw [saved_snapshots, kept, Chain.chain_keep _ _ hfit]
    exact hb
  · intro hm
    rw [saved_metadata] at hm
    rw [(h.fresh hm).1] at he
    cases he

include hR hT in
theorem Safe.fits (he : s.registry d = some e) :
    chainLength (s.repo.snapshots d ++ [captured E Z cfg s d e]) ≤ cfg.snapMgr.retentionCount :=
  (chainBound_captured (h.live e he).bound).2 _ hR hT

theorem Safe.saved_other (hx : d ≠ x) : Safe E Z cfg (Collab.saved E Z cfg s x e) acc d := by
  refine h.frame (saved_snapshots_other E Z cfg s e hx) (saved_updates_other E Z cfg s e hx)
    (fun hm => by rwa [saved_metadata] at hm) (fun _ hu => hu) ?_ (fun _ _ => Finset.Subset.refl _) (Nat.le_refl _)
  intro e' he'
  rwa [show (Collab.saved E Z cfg s x e).registry d = s.registry d from
    update_of_ne hx ..] at he'

include hR hT in
theorem Safe.saveSnapshot : Safe E Z cfg (saveSnapshot E Z cfg s x).2 acc d := by
  rcases saveSnapshot_cases E Z cfg s x with ⟨err, hs, -⟩ | ⟨e, he, -, hs⟩
  · rw [hs]
    exact h
  rw [hs]
  by_cases hx : d = x
  · subst hx
    exact h.saved hR he (h.fits hR hT he)
  · exact h.saved_other hx

/-! ## edits -/

omit h in
theorem edited_ops_mono (o : Finset Op) (k : Nat) : s.ops k ⊆ (edited s x e update (s.ops e.doc ∪ o)).ops k := by
  by_cases hk : k = e.doc
  · subst hk
    intro a ha
    simp [edited, State.ops] at ha ⊢
    exact .inl ha
  · intro a ha
    simpa [edited, State.ops, update_of_ne hk] using ha

theorem Safe.edited_other (o : Finset Op) (hx : d ≠ x) :
    Safe E Z cfg (edited s x e update (s.ops e.doc ∪ o)) ((x, update) :: acc) d := by
  refine h.frame rfl (update_of_ne hx ..) id ?_ ?_ (fun k _ => edited_ops_mono o k) (Nat.le_refl _)
  · intro u hu
    rcases mem_cons.mp hu with hu | hu
    · exact absurd (congrArg Prod.fst hu) hx
    · exact hu
  · intro e' he'
    rwa [show (edited s x e update _).registry d = s.registry d from
      update_of_ne hx ..] at he'

theorem Safe.edited {o : Finset Op} (he : s.registry d = some e) (ho : E.decode update = some o) :
    Safe E Z cfg (edited s d e update (s.ops e.doc ∪ o)) ((d, update) :: acc) d := by
  set n := Collab.edited s d e update (s.ops e.doc ∪ o) with hn
  have hl := h.live e he
  have hup := edited_updates s d e update (s.ops e.doc ∪ o)
  have hpo : payloadOps E update = o := by rw [payloadOps, ho]; rfl
  have hsn : n.repo.snapshots d = s.repo.snapshots d := rfl
  have htail : ⟨newID "up" s.nextID, d, update, e.version + 1⟩
      ∈ tail n.repo d := by
    rw [mem_tail, hup, hsn]
    refine ⟨by simp, ?_⟩
    have := hl.version
    simp only
    omega
  have hgrow : content E Z s.repo d ⊆ content E Z n.repo d := by
    intro a ha
    rw [content, Finset.mem_union, mem_tailOps] at ha ⊢
    rw [hsn, hup]
    rcases ha with ha | ⟨u, hu, hv, hau⟩
    · exact .inl ha
    · exact .inr ⟨u, by simp [hu], hv, hau⟩
  refine ⟨h.readable.edited E Z s e _ ho, h.sound, ?_, ?_, ?_, ?_⟩
  · intro u hu
    refine ⟨.inr (ne_nil_of_mem htail), ?_⟩
    rcases mem_cons.mp hu with hu | hu
    · cases hu
      intro a ha
      rw [content, Finset.mem_union, mem_tailOps]
      exact .inr ⟨_, (mem_tail.mp htail).1, (mem_tail.mp htail).2, ha⟩
    · exact (h.stored u hu).2.trans hgrow
  · intro u hu
    rw [hup] at hu
    rcases mem_append.mp hu with hu | hu
    · exact h.newer u hu
    · rw [mem_singleton.mp hu]
      exact Nat.lt_succ_of_le hl.version
  · intro e' he'
    have : e.markEdited = e' := by simpa [hn, Collab.edited] using he'
    subst this
    have hops := edited_ops s d e update (s.ops e.doc ∪ o)
    refine ⟨hl.alloc, fun u hu => ?_, fun a ha => ?_, Nat.le_succ_of_le hl.version, hl.bound⟩
    · show payloadOps E u ⊆ n.ops e.doc
      rw [hops]
      rcases mem_cons.mp hu with hu | hu
      · cases hu
        rw [hpo]
        exact Finset.subset_union_right
      · exact (hl.holds u hu).trans Finset.subset_union_left
    · show a ∈ n.ops e.doc
      rw [content, Finset.mem_union, mem_tailOps, hsn, hup] at ha
      rw [hops, Finset.mem_union]
      rcases ha with ha | ⟨u, hu, -, ha⟩
      · exact .inl (hl.full (Finset.mem_union_left _ ha))
      rcases mem_append.mp hu with hu | hu
      · exact .inl (h.log_full hl hu ha)
      rw [mem_singleton.mp hu] at ha
      rw [← hpo]
      exact .inr ha
  · intro hm
    rw [(h.fresh hm).1] at he
    cases he

include hR hT in
theorem Safe.applyIncrementalUpdate (x : String) (update : Bytes) :
    Safe E Z cfg (applyIncrementalUpdate E Z cfg s x update).2
      (if (applyIncrementalUpdate E Z cfg s x update).1.isOk then (x, update) :: acc else acc)
      d := by
  rcases applyIncrementalUpdate_cases E Z cfg s x update with ⟨err, hs⟩ | ⟨e, o, he, ho, hs⟩
  · rw [hs]
    exact h
  have hed : Safe E Z cfg (Collab.edited s x e update (s.ops e.doc ∪ o)) ((x, update) :: acc)
      d := by
    by_cases hx : d = x
    · subst hx
      exact h.edited he ho
    · exact h.edited_other o hx
  rcases hs with hs | hs
  · rw [hs]
    exact hed
  · rw [hs]
    exact hed.saveSnapshot hR hT

/-! ## unloading, deleting and opening -/

theorem Safe.unloaded (e : DocumentEntry) : Safe E Z cfg (unloaded s x e) acc d := by
  refine h.frame rfl rfl id (fun _ hu => hu) ?_ ?_ (Nat.le_refl _)
  · intro e' he'
    by_cases hx : d = x
    · subst hx
      simp [Collab.unloaded, State.destroy] at he'
    · simpa [Collab.unloaded, State.destroy, update_of_ne hx] using he'
  · exact fun k _ => (destroy_ops { s with registry := _ } e.doc k).ge

include hR hT in
theorem Safe.archiveDocument : Safe E Z cfg (archiveDocument E Z cfg s x).2 acc d := by
  rcases archiveDocument_cases E Z cfg s x with ⟨err, hs⟩ | ⟨e, he, ⟨-, hs⟩ | ⟨-, -, hs⟩⟩
  · rw [hs]
    exact h
  · rw [hs]
    exact h.unloaded e
  rw [hs]
  have hsv : Safe E Z cfg (Collab.saved E Z cfg s x e) acc d := by
    by_cases hx : d = x
    · subst hx
      exact h.saved hR he (h.fits hR hT he)
    · exact h.saved_other hx
  exact hsv.unloaded _

theorem Safe.opened_other (hx : d ≠ x) : Safe E Z cfg (opened s x e ops) acc d := by
  refine h.frame rfl rfl id (fun _ hu => hu) ?_ ?_ (Nat.le_succ _)
  · intro e' he'
    simpa [opened, update_of_ne hx] using he'
  · intro k hk a ha
    simpa [opened, State.alloc, State.ops, update_of_ne (Nat.ne_of_lt hk)] using ha

theorem Safe.opened (hdoc : e.doc = s.nextDoc)
    (hops : content E Z s.repo d ⊆ ops) (hver : lastVersion (s.repo.snapshots d) ≤ e.version)
    (hcount : e.snapshot.snapshotCount = 0) (hm : s.repo.metadata d ≠ none) :
    Safe E Z cfg (opened s d e ops) acc d where
  readable := h.readable
  sound := h.sound
  stored := h.stored
  newer := h.newer
  live e' he' := by
    have : e = e' := by simpa [Collab.opened] using he'
    subst this
    have ho : (Collab.opened s d e ops).ops e.doc = ops := by
      rw [hdoc]
      simp [Collab.opened, State.alloc, State.ops]
    refine ⟨?_, fun u hu => ?_, ?_, hver, .inl hcount⟩
    · rw [hdoc]
      exact Nat.lt_succ_self _
    · rw [ho]
      exact (h.stored u hu).2.trans hops
    · rw [ho]
      exact hops
  fresh hn := absurd hn hm

theorem Safe.getOrCreateDocument {r f : String} : Safe E Z cfg (getOrCreateDocument E Z s x r f).2 acc d := by
  rcases getOrCreateDocument_cases E Z s x r f with
    ⟨e, -, hs⟩ | ⟨hnone, hm, ⟨err, -, hs⟩ | ⟨res, hrec, hs⟩⟩ | ⟨hnone, hm, hs⟩
  · rw [hs]
    exact h
  · rw [hs]
    exact h
  · rw [hs]
    by_cases hx : d = x
    · subst hx
      have hst : Stored s.repo d := by
        by_contra hn
        rw [recoverDocument_none E Z hn] at hrec
        cases hrec
      obtain ⟨res', hrec', hops, hv, -⟩ := recoverDocument_ok E Z h.readable hst
      cases hrec.symm.trans hrec'
      exact h.opened rfl hops.ge hv rfl (Option.isSome_iff_ne_none.mp hm)
    · exact h.opened_other hx
  · rw [hs]
    by_cases hx : d = x
    · subst hx
      obtain ⟨-, h2, h3, h4⟩ := h.fresh hm
      have hsm : Safe E Z cfg { s with repo := s.repo.saveMetadata ⟨d, r, f⟩ } acc d :=
        ⟨⟨h.readable.snaps, h.readable.log⟩, h.sound, h.stored, h.newer, fun e he => (by rw [hnone] at he; cases he),
          fun hn => by simp [Repository.saveMetadata] at hn⟩
      refine hsm.opened rfl (fun o ho => ?_) ?_ rfl ?_
      · rw [content, Finset.mem_union, mem_tailOps] at ho
        simp only [Repository.saveMetadata, h2, h3, chainOps_nil] at ho
        rcases ho with ho | ⟨u, hu, -⟩
        · exact ho
        · cases hu
      · show lastVersion (s.repo.snapshots d) ≤ _
        rw [h2, lastVersion_nil]
        exact Nat.zero_le _
      · simp [Repository.saveMetadata]
    · refine Safe.opened_other (h.frame rfl rfl ?_ (fun _ hu => hu) (fun _ he => he)
        (fun _ _ => Finset.Subset.refl _) (Nat.le_refl _)) hx
      intro hn
      simpa [Repository.saveMetadata, update_of_ne hx] using hn

theorem Safe.restart : Safe E Z cfg (restart s) acc d :=
  h.frame rfl rfl id (fun _ hu => hu) (fun e he => by simp [Collab.restart] at he)
    (fun _ _ => Finset.Subset.refl _) (Nat.le_refl _)

theorem Safe.deleteDocument : Safe E Z cfg (deleteDocument s x).2 (acc.filter fun p => p.1 ≠ x) d := by
  have hreg := deleteDocument_registry s x d
  have hrepo := deleteDocument_repo s x
  obtain ⟨hnext, hops⟩ := deleteDocument_docs s x
  by_cases hx : d = x
  · subst hx
    rw [if_pos rfl] at hreg
    refine ⟨⟨?_, ?_⟩, ?_, ?_, ?_, ?_, ?_⟩
    all_goals simp [hreg, hrepo, VectorSound, Repository.deleteDocument]
  · rw [if_neg hx] at hreg
    refine h.frame ?_ ?_ ?_ (fun u hu => mem_of_mem_filter hu) (fun e he => hreg ▸ he) (fun k _ => (hops k).ge) hnext.ge
    all_goals simp [hrepo, Repository.deleteDocument, update_of_ne hx]

end

/-! ## runs -/

/-- **Every call keeps the invariant of every document.** -/
theorem safe_step (hR : 1 ≤ cfg.snapMgr.retentionCount)
    (hT : cfg.snapMgr.incrementalThreshold ≤ cfg.snapMgr.retentionCount)
    (h : History Op) (ev : Event) (h' : History Op)
    (hi : ∀ d, Safe E Z cfg h.state h.accepted d) (hs : h.step E Z cfg ev = some h') :
    ∀ d, Safe E Z cfg h'.state h'.accepted d := by
  intro d
  cases ev with
  | restart =>
    cases hs
    exact (hi d).restart
  | call c =>
  cases hs
  cases c with
  | getOrCreate x r f =>
    show Safe E Z cfg (Collab.getOrCreateDocument E Z h.state x r f).2 (ite _ h.accepted _) d
    rw [ite_self]
    exact (hi d).getOrCreateDocument
  | apply x u =>
    have := (hi d).applyIncrementalUpdate hR hT x u
    rwa [← isOk_map fun _ => (none : Option Nat)] at this
  | save x =>
    show Safe E Z cfg (Collab.saveSnapshot E Z cfg h.state x).2 (ite _ h.accepted _) d
    rw [ite_self]
    exact (hi d).saveSnapshot hR hT
  | archive x =>
    show Safe E Z cfg (Collab.archiveDocument E Z cfg h.state x).2 (ite _ h.accepted _) d
    rw [ite_self]
    exact (hi d).archiveDocument hR hT
  | delete x => exact (hi d).deleteDocument

theorem safe_run (hR : 1 ≤ cfg.snapMgr.retentionCount)
    (hT : cfg.snapMgr.incrementalThreshold ≤ cfg.snapMgr.retentionCount) {cs : List Event} {h : History Op}
    (hr : Lts.run (History.step E Z cfg) (History.init Op) cs = some h) (d : String) :
    Safe E Z cfg h.state h.accepted d :=
  Lts.run_inv_all (I := fun h => ∀ d, Safe E Z cfg h.state h.accepted d) (safe_step hR hT) (safe_init E Z cfg) hr d

end

end Collab
