import Cpip.Storage.Effects

/-!
# Storage: the accesses of the operations

The operations of the artifact manager and of the reaper, each walked through once.

* `Walk`  what a return has, and a sequence and a quiet access keep;
* `walk_purge`, `walk_delete`, `walk_runOnce`  **an operation has it when its other accesses do**, and the like.
-/

namespace Storage

/-- a property of operations, with the answers that an access can get -/
structure Walk (K : {ρ : Type} → Op ρ → Prop) (An : (c : Cmd) → c.Ans → Prop) : Prop where
  ret : ∀ {ρ : Type} (r : ρ), K (.ret r : Op ρ)
  bind : ∀ {ρ ρ' : Type} {x : Op ρ'} {f : ρ' → Op ρ}, K x → (∀ r, K (f r)) → K (x.bind f)
  read : ∀ {ρ : Type} {c : Cmd} {f : c.Ans → Op ρ}, c.Quiet → (∀ a, An c a → K (f a)) → K ((access c).bind f)

theorem walk_uses {P : Cmd → Prop} (h : ∀ c, c.Quiet → P c) : Walk (fun x => x.Uses P) fun _ _ => True :=
  ⟨fun _ => trivial, Code.uses_bind, fun hc hf => Code.uses_cmd (h _ hc) fun a => hf a trivial⟩

def Answers (S : Service) (I : World → Prop) (ok : World → Cmd → Prop) (c : Cmd) (a : c.Ans) : Prop :=
  ∃ t e u, I t ∧ ok t c ∧ exec S c t e = some (a, u)

theorem walk_keeps {S : Service} {I : World → Prop} {R G : Cmd → World → World → Prop} {ok : World → Cmd → Prop}
    (h : Harmless S I G ok) : Walk (fun x => Keeps S I R G ok x) (Answers S I ok) :=
  ⟨keeps_ret, keeps_bind, fun hc hf => keeps_read h hc fun t e a u hI hok he => hf a ⟨t, e, u, hI, hok, he⟩⟩

section
variable {S : Service} {K : {ρ : Type} → Op ρ → Prop} {An : (c : Cmd) → c.Ans → Prop} (h : Walk K An)
include h

theorem walk_access {c : Cmd} (hc : c.Quiet) : K (access c) := h.read (f := .ret) hc fun a _ => h.ret a

theorem walk_each {α : Type} {f : α → Op Unit} {xs : List α} (hf : ∀ x ∈ xs, K (f x)) : K (Code.each f xs) := by
  induction xs with
  | nil => exact h.ret ()
  | cons x xs ih =>
    exact h.bind (hf x (List.mem_cons_self ..)) fun _ => ih fun y hy => hf y (List.mem_cons_of_mem _ hy)

/-! ## uploads -/

section
variable (req : Request) (logical key : String) (alg : Algorithm) (digest : Digest)

theorem walk_readback : K (readback S req logical key alg digest) := by
  unfold readback
  split
  · refine h.read trivial fun r _ => ?_
    split
    · exact h.ret _
    split
    · exact h.ret _
    · split <;> exact h.ret _
  · exact h.ret _

theorem walk_lineageFor : K (lineageFor req) := by
  unfold lineageFor
  split
  · exact walk_access h trivial
  · exact h.ret _

theorem walk_resolvePolicy (t : ArtType) (requested : RetentionPolicy) : K (resolvePolicy S t requested) := by
  unfold resolvePolicy
  split
  · exact h.read trivial fun _ _ => h.ret _
  · exact h.ret _

theorem walk_register (happend : ∀ a, K (access (.appendVersion a))) (size : Nat) (dedup : Bool) :
    K (register S req logical key digest size alg dedup) := by
  refine h.bind (walk_lineageFor h req) fun _ => h.read trivial fun _ _ => ?_
  refine h.bind (walk_resolvePolicy h _ _) fun _ => h.bind (happend _) fun r => ?_
  split <;> exact h.ret _

theorem walk_deduplicate : K (deduplicate req logical digest) := by
  unfold deduplicate
  split
  · exact h.ret _
  · refine h.read trivial fun r _ => ?_
    split <;> exact h.ret _

theorem walk_uploadPipeline (happend : ∀ a, K (access (.appendVersion a)))
    (hstore : ∀ logical data, K (storeAndRegister S req logical data)) : K (uploadPipeline S req) := by
  unfold uploadPipeline
  split
  · exact h.ret _
  refine h.bind (walk_deduplicate h req _ _) fun found => ?_
  split
  · exact walk_register h req _ _ _ _ happend _ _
  · exact hstore _ _

end

theorem walk_afterUpload (hpurge : ∀ lineageID lineage cap v, An (.listLineage lineageID) lineage →
    v ∈ pruneVictims lineage cap → K (purge v.id)) (r : Except Err Result) : K (afterUpload S r) := by
  unfold afterUpload
  split
  · exact h.ret _
  split
  · unfold pruneLineage
    split
    · exact h.ret _
    · refine h.read trivial fun lineage hl => walk_each h fun v hv => ?_
      exact h.bind (hpurge _ _ _ v hl hv) fun _ => h.ret _
  · exact h.ret _

/-! ## the artifact manager -/

variable {id : String}

theorem walk_purge (hother : ∀ a, An (.get id) (.ok a) → ¬ a.retention.legalHold = true →
    K (access (.updateState a.id a.state .deleting)) ∧ K (dropObject a) ∧ K (access (.delete id))) : K (purge id) := by
  refine h.read trivial fun r hr => ?_
  split
  · exact h.ret _
  split
  · exact h.ret _
  rename_i a hfree
  obtain ⟨hmark, hdrop, hdelete⟩ := hother a hr hfree
  refine h.bind ?_ fun _ => h.bind hdrop fun r => ?_
  · unfold markDeleting
    split
    · exact h.bind hmark fun _ => h.ret _
    · exact h.ret _
  · split
    · exact h.ret _
    · exact hdelete

theorem walk_delete (hstate : ∀ a expected next, An (.get id) (.ok a) → ¬ a.retention.legalHold = true →
    a.state ≠ .deleted → next.serveable = false → K (access (.updateState a.id expected next))) : K (delete id) := by
  refine h.read trivial fun r hr => ?_
  split
  · exact h.ret _
  split
  · exact h.ret _
  split
  · exact h.ret _
  rename_i a hfree hlive
  unfold transitionToDeleted
  split
  · refine h.bind (hstate a _ _ hr hfree hlive rfl) fun r => ?_
    split
    · exact h.ret _
    · exact hstate a _ _ hr hfree hlive rfl
  · exact hstate a _ _ hr hfree hlive rfl

theorem walk_restore (hstate : ∀ a, An (.get id) (.ok a) → a.state = .deleted →
    K (access (.updateState id .deleted .available))) : K (restore id) := by
  refine h.read trivial fun r hr => ?_
  split
  · exact h.ret _
  split
  · exact h.ret _
  rename_i a hdel
  refine h.read trivial fun r _ => ?_
  split
  · exact h.ret _
  · exact h.ret _
  · exact hstate a hr (not_not.mp hdel)

theorem walk_rollback (hlatest : ∀ lineageID id, K (access (.setLatest lineageID id))) (lineageID : String)
    (version : Int) : K (rollback lineageID version) := by
  refine h.read trivial fun r _ => ?_
  split
  · exact h.ret _
  split
  · exact h.ret _
  refine h.bind (hlatest _ _) fun r => ?_
  split <;> exact h.ret _

theorem walk_setLegalHold {hold : Bool} (hupdate : ∀ a, An (.get id) (.ok a) →
    K (access (.update { a with retention := { a.retention with legalHold := hold } }))) :
    K (setLegalHold id hold) := by
  refine h.read trivial fun r hr => ?_
  split
  · exact h.ret _
  · exact hupdate _ hr

theorem walk_updateRetention {policy : RetentionPolicy} (hupdate : ∀ a now, An (.get id) (.ok a) →
    K (access (.update { a with retention := resolve S a.type policy now }))) : K (updateRetention S id policy) := by
  refine h.read trivial fun r hr => ?_
  split
  · exact h.ret _
  unfold resolvePolicy
  split
  · exact h.read trivial fun now _ => hupdate _ now hr
  · exact hupdate _ 0 hr

/-! ## the reaper -/

theorem walk_reap {now : Int} {a : Artifact} (harchive : K (access (.updateState a.id a.state .archived)))
    (hexpire : K (access (.updateState a.id a.state .expired))) (hpurge : K (purge a.id)) : K (reap S now a) := by
  unfold reap
  split
  · exact h.ret _
  · exact h.ret _
  · unfold archive
    split
    · exact h.ret _
    · exact h.bind harchive fun _ => h.ret _
  · unfold expire
    split
    · exact h.ret _
    · exact h.bind hexpire fun _ => h.bind hpurge fun _ => h.ret _

theorem walk_runOnce (hreap : ∀ now n found a, An (.findExpired now n) found → a ∈ found → K (reap S now a)) :
    K (runOnce S) := by
  have heach : ∀ now xs, (∀ a ∈ xs, K (reap S now a)) → K (reapEach S now xs) := by
    intro now xs hxs
    induction xs with
    | nil => exact h.ret _
    | cons a as ih =>
      refine h.read trivial fun stop _ => ?_
      split
      · exact h.ret _
      · exact h.bind (hxs a (List.mem_cons_self ..)) fun _ => ih fun b hb => hxs b (List.mem_cons_of_mem _ hb)
  refine h.read trivial fun now _ => h.read trivial fun found hfound => ?_
  exact heach now found fun a ha => hreap now _ found a hfound ha

theorem walk_sweepOrphans (hsweep : ∀ logical cutoff o, K (sweepObject S logical cutoff o)) (maxPerBucket : Int)
    (pages : Nat) : K (sweepOrphans S maxPerBucket pages) := by
  have hbucket : ∀ logical cutoff n marker scanned,
      K (sweepBucket S logical cutoff maxPerBucket n marker scanned) := by
    intro logical cutoff n
    induction n with
    | zero => exact fun _ _ => h.ret _
    | succ n ih =>
      intro marker scanned
      refine h.read trivial fun stop _ => ?_
      split
      · exact h.ret _
      refine h.read trivial fun page _ => ?_
      split
      · exact h.ret _
      refine h.bind (walk_each h fun o _ => hsweep logical cutoff o) fun _ => ?_
      dsimp only
      split
      · exact h.ret _
      split
      · exact h.ret _
      · exact ih _ _
  have hbuckets : ∀ cutoff bs, K (sweepBuckets S cutoff maxPerBucket pages bs) := by
    intro cutoff bs
    induction bs with
    | nil => exact h.ret _
    | cons b bs ih =>
      refine h.bind (hbucket b cutoff pages "" 0) fun r => ?_
      split
      · exact h.ret _
      · exact ih
  exact h.read trivial fun now _ => hbuckets _ _

end

end Storage
