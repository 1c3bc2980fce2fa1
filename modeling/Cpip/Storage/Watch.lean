import Cpip.Storage.Served

/-!
# Storage: a record that is left alone

One record and its object, while any operations interleave: a record under legal hold, or a record that is deleted
and neither purged nor restored.

* `watched_run`  **calls that are not meant to change the record leave it and its object**.
-/

set_option linter.unusedSectionVars false

namespace Storage

open MemoryStore Pool Code

/-- a record that should stay in a state, under legal hold or not -/
structure Watch where
  art : Artifact
  state : State
  held : Bool

def Watch.Fair (x : Watch) : Prop := x.held = true ∧ x.state ≠ .deleted ∨ x.held = false ∧ x.state = .deleted

/-- the record is there in its state, and so is its object -/
structure Watched (S : Service) (x : Watch) (w : World) : Prop where
  made : x.art ∈ w.made
  row : ∃ a, w.store.find x.art.id = some a ∧ a.state = x.state ∧ (x.held = true → a.retention.legalHold = true)
  stored : Stored S w x.art.bucket x.art.objectKey

/-- the access leaves the record and its object -/
def Leaves (x : Watch) : Cmd → Prop
  | .update a => a.id = x.art.id → a.state = x.state ∧ (x.held = true → a.retention.legalHold = true)
  | .updateState id _ _ => id ≠ x.art.id
  | .delete id => id ≠ x.art.id
  | .deleteObject bucket key => ¬ (bucket = x.art.bucket ∧ key = x.art.objectKey)
  | _ => True

def Cmd.sweeps : Cmd → Option (String × String)
  | .countReferences bucket key none => some (bucket, key)
  | _ => none

/-- a purge of another record finds a second reference to the object, and a sweep finds one or deletes nothing -/
def Spared (S : Service) (x : Watch) (w : World) (c : Cmd) : Prop :=
  (∀ n ∈ c.counts, n.id ≠ x.art.id → n.bucket = x.art.bucket → n.key = x.art.objectKey →
    1 < w.store.countReferences n.bucket n.key) ∧
  ∀ n ∈ c.sweeps, n.1 = x.art.bucket → n.2 = x.art.objectKey →
    0 < w.store.countReferences n.1 n.2 ∨ S.cfg.cleanup.dryRun = true

/-- the call is not meant to change the record -/
def Allowed (x : Watch) : Call → Prop
  | .purge id => x.held = true ∨ id ≠ x.art.id
  | .restore id => x.held = true ∨ id ≠ x.art.id
  | .setLegalHold id hold => id = x.art.id → x.held = true → hold = true
  | .updateRetention id policy => id = x.art.id → x.held = true → policy.legalHold = true
  | _ => True

def Allows (x : Watch) : Act Call Env → Prop
  | .spawn _ c => Allowed x c
  | .step _ _ => True

/-- the calls of `early` leave the record and its object -/
def Aloof (early : List Nat) (x : Watch) (sys : Sys World Th) : Act Call Env → Prop
  | .spawn _ _ => True
  | .step i _ => i ∈ early → ∀ t ∈ sys.pool i, ∀ c ∈ t.next, Leaves x c

theorem aloof_nil {x : Watch} (sys : Sys World Th) (l : Act Call Env) : Aloof [] x sys l := by
  cases l with
  | spawn i c => trivial
  | step i e => exact fun h => absurd h List.not_mem_nil

/-- the call has returned, or it has read nothing yet and is not meant to change the record -/
def Fresh (S : Service) (x : Watch) (t : Th) : Prop := t.next = none ∨ t.code = body S t.what ∧ Allowed x t.what

instance (x : Watch) : DecidablePred (Leaves x)
  | .update _ => inferInstanceAs (Decidable (_ → _ ∧ (_ → _)))
  | .updateState _ _ _ | .delete _ => inferInstanceAs (Decidable (_ ≠ _))
  | .deleteObject _ _ => inferInstanceAs (Decidable (¬ (_ ∧ _)))
  | .clock | .newID | .ctxErr | .get _ | .appendVersion _ | .getLatest _ | .getVersion _ _ | .listLineage _
  | .setLatest _ _ | .findByContentHash _ _ | .countReferences _ _ _ | .findExpired _ _ | .putObject _ _ _
  | .getObject _ _ _ | .existsObject _ _ | .listObjects _ _ => isTrue trivial

instance (early : List Nat) (x : Watch) (sys : Sys World Th) : DecidablePred (Aloof early x sys) := by
  intro l
  unfold Aloof
  rcases l with _ | _ <;> infer_instance

instance (S : Service) (x : Watch) (w : World) (c : Cmd) : Decidable (Spared S x w c) := by
  unfold Spared
  infer_instance

instance (x : Watch) : DecidablePred (Allowed x) := by
  intro l
  unfold Allowed
  split <;> infer_instance

instance (x : Watch) : DecidablePred (Allows x) := by
  intro l
  unfold Allows
  rcases l with _ | _ <;> infer_instance

section
variable {S : Service} {U : Bytes → Prop} {x : Watch}

/-! ## one access -/

/-- **An access that leaves the record and its object.** -/
theorem watched_exec {w m : World} {e : Env} {c : Cmd} {r : c.Ans} (hD : Distinct S) (hP : Proper S U w c)
    (h : Watched S x w) (hL : Leaves x c) (he : exec S c w e = some (r, m)) : Watched S x m := by
  obtain ⟨a, ha, hstate, hhold⟩ := h.row
  refine ⟨made_mono he h.made, ?_, stored_exec hD h.stored ?_ he⟩
  · cases change_exec he x.art.id with
    | keep h' => exact ⟨a, h'.trans ha, hstate, hhold⟩
    | head isLatest hb h' =>
      cases ha.symm.trans hb
      exact ⟨_, h', hstate, hhold⟩
    | update hid hcur h' => exact ⟨_, h', hL hid⟩
    | state hid hcur hexp h' | delete hid hcur h' hp => exact absurd hid hL
    | append hid hnone h' => cases ha.symm.trans hnone
  · rintro rfl
    exact hL ⟨rfl, rfl⟩

/-! ## the operations -/

structure Guarded (S : Service) (U : Bytes → Prop) (x : Watch) (ok : World → Cmd → Prop) : Prop where
  distinct : Distinct S
  fair : x.Fair
  base : ∀ t c, ok t c → Base S U t ∧ Proper S U t c
  spared : ∀ t c, Watched S x t → ok t c → Spared S x t c

/-- the operation leaves the record and its object, whatever the others do -/
abbrev Spares (S : Service) (x : Watch) (ok : World → Cmd → Prop) {ρ : Type} (y : Op ρ) : Prop :=
  Keeps S (Watched S x) (fun _ _ _ => True) (fun c _ _ => Leaves x c) ok y

section
variable {ok : World → Cmd → Prop} {ρ : Type} (hG : Guarded S U x ok)
include hG

theorem guarded_exec (c : Cmd) (t : World) (e : Env) (a : c.Ans) (u : World) (hI : Watched S x t) (hok : ok t c)
    (hL : Leaves x c) (he : exec S c t e = some (a, u)) : Watched S x u :=
  watched_exec hG.distinct (hG.base t c hok).2 hI hL he

theorem guarded_harmless : Harmless S (Watched S x) (fun c _ _ => Leaves x c) ok := by
  intro c hc t e a u hI hok he
  have hL : Leaves x c := by
    cases c with
    | update a | updateState id expected next | delete id | deleteObject bucket key => exact hc.elim
    | _ => trivial
  exact ⟨guarded_exec hG c t e a u hI hok hL he, hL⟩

theorem spares_access {c : Cmd} (hL : Leaves x c) : Spares S x ok (access c) :=
  fun _ => safe_call (guarded_exec hG) fun _ _ _ _ => ⟨hL, fun _ _ _ _ _ => trivial⟩

theorem guarded_walk : Walk (fun y => Spares S x ok y) (Answers S (Watched S x) ok) := walk_keeps (guarded_harmless hG)

variable {id : String} {t : World} {a : Artifact}

omit hG in
theorem watched_get (h : Answers S (Watched S x) ok (.get id) (.ok a)) :
    a.id = id ∧ (a.id = x.art.id → a.state = x.state ∧ (x.held = true → a.retention.legalHold = true)) := by
  obtain ⟨t, e, u, hI, -, he⟩ := h
  have ha : t.store.get id = .ok a := congrArg Prod.fst (Option.some.inj he)
  have hrow := get_ok ha
  have hid : a.id = id := find_id hrow
  refine ⟨hid, fun heq => ?_⟩
  obtain ⟨b, hb, hrest⟩ := hI.row
  rw [← heq, hid] at hb
  cases hb.symm.trans hrow
  exact hrest

theorem spares_purge (h : x.held = true ∨ id ≠ x.art.id) : Spares S x ok (purge id) := by
  refine walk_purge (guarded_walk hG) fun a ha hfree => ?_
  obtain ⟨haid, hget⟩ := watched_get ha
  have hne : a.id ≠ x.art.id := by
    intro heq
    rcases h with h | h
    · exact hfree ((hget heq).2 h)
    · exact h (haid.symm.trans heq)
  refine ⟨spares_access hG (c := .updateState _ _ _) hne, fun s => ?_, spares_access hG (c := .delete id) (haid ▸ hne)⟩
  refine safe_fit (guarded_exec hG) fun t _ hI hok => ⟨trivial, fun e refs u he _ => ?_⟩
  cases he
  split
  · rename_i hrefs
    have hL : Leaves x (.deleteObject a.bucket a.objectKey) := by
      rintro ⟨hb, hk⟩
      have hspared : 1 < t.store.countReferences a.bucket a.objectKey :=
        (hG.spared t _ hI hok).1 ⟨a.bucket, a.objectKey, a.id⟩ rfl hne hb hk
      exact absurd hrefs (Nat.not_le.mpr hspared)
    refine keeps_bind (spares_access hG hL) (fun r => ?_) t
    split <;> exact keeps_ret _
  · trivial

theorem spares_delete (id : String) : Spares S x ok (delete id) := by
  refine walk_delete (guarded_walk hG) fun a _ _ ha hfree hlive _ =>
    spares_access hG (c := .updateState _ _ _) fun heq => ?_
  -- the record itself is held, or deleted already
  obtain ⟨hstate, hhold⟩ := (watched_get ha).2 heq
  rcases hG.fair with ⟨hheld, -⟩ | ⟨-, hdel⟩
  · exact hfree (hhold hheld)
  · exact hlive (hstate.trans hdel)

theorem spares_restore (h : x.held = true ∨ id ≠ x.art.id) : Spares S x ok (restore id) := by
  refine walk_restore (guarded_walk hG) fun a ha hdel => spares_access hG (c := .updateState _ _ _) fun heq => ?_
  obtain ⟨haid, hget⟩ := watched_get ha
  rcases h with h | h
  · rcases hG.fair with ⟨-, hlive⟩ | ⟨hno, -⟩
    · exact hlive ((hget (haid.trans heq)).1.symm.trans hdel)
    · rw [h] at hno
      cases hno
  · exact h heq

theorem spares_setLegalHold {hold : Bool} (h : id = x.art.id → x.held = true → hold = true) :
    Spares S x ok (setLegalHold id hold) := by
  refine walk_setLegalHold (guarded_walk hG) fun a ha => spares_access hG (c := .update _) fun heq => ?_
  obtain ⟨haid, hget⟩ := watched_get ha
  exact ⟨(hget heq).1, h (haid.symm.trans heq)⟩

theorem spares_updateRetention {policy : RetentionPolicy}
    (h : id = x.art.id → x.held = true → policy.legalHold = true) : Spares S x ok (updateRetention S id policy) := by
  refine walk_updateRetention (guarded_walk hG) fun a now ha => spares_access hG (c := .update _) fun heq => ?_
  obtain ⟨haid, hget⟩ := watched_get ha
  exact ⟨(hget heq).1, fun hheld => (legalHold_resolve S _ _ _).trans (h (haid.symm.trans heq) hheld)⟩

theorem spares_reap {now : Int} (hI : Watched S x t) (ha : a ∈ t.store.expired now) :
    Spares S x ok (reap S now a) := by
  have hne : a.id ≠ x.art.id := by
    intro heq
    obtain ⟨hrow, hexp⟩ := List.mem_filter.mp ha
    obtain ⟨b, hb, hstate, hhold⟩ := hI.row
    rw [← heq, find_row hrow] at hb
    cases hb
    simp only [Bool.and_eq_true, Bool.or_eq_true, decide_eq_true_eq] at hexp
    rcases hG.fair with ⟨hheld, -⟩ | ⟨-, hdel⟩
    · have hno : a.isExpired now = false := by
        unfold Artifact.isExpired
        rw [if_pos (hhold hheld)]
      rw [hno] at hexp
      cases hexp.2
    · rw [hstate, hdel] at hexp
      rcases hexp.1 with h | h <;> cases h
  have hstate : ∀ next, Spares S x ok (access (.updateState a.id a.state next)) :=
    fun _ => spares_access hG (c := .updateState _ _ _) hne
  exact walk_reap (guarded_walk hG) (hstate _) (hstate _) (spares_purge hG (.inr hne))

theorem spares_sweepObject (logical : String) (cutoff : Int) (o : String × Option Int) :
    Spares S x ok (sweepObject S logical cutoff o) := by
  intro s
  unfold sweepObject
  split
  · trivial
  split
  · trivial
  refine safe_fit (guarded_exec hG) fun t _ hI hok => ⟨trivial, fun e refs u he _ => ?_⟩
  cases he
  split
  · trivial
  rename_i hrefs
  split
  · trivial
  rename_i hdry
  have hL : Leaves x (.deleteObject logical o.1) := by
    rintro ⟨hb, hk⟩
    rcases (hG.spared t _ hI hok).2 (logical, o.1) rfl hb hk with hspared | hspared
    · exact hrefs hspared
    · exact hdry hspared
  exact keeps_bind (spares_access hG hL) (fun _ => keeps_ret ()) t

theorem spares_victim {lineageID : String} {cap : Int} {v : Artifact} (hI : Watched S x t)
    (hv : v ∈ pruneVictims (t.store.lineage lineageID) cap) : Spares S x ok (purge v.id) := by
  obtain ⟨hmem, -, -, hlive⟩ := mem_pruneVictims hv
  rcases hG.fair with ⟨hheld, -⟩ | ⟨-, hdel⟩
  · exact spares_purge hG (.inl hheld)
  refine spares_purge hG (.inr fun heq => ?_)
  rw [lineage, List.mem_insertionSort] at hmem
  obtain ⟨b, hb, hstate, -⟩ := hI.row
  rw [← heq, find_row (List.mem_filter.mp hmem).1] at hb
  cases hb
  exact hlive (hstate.trans hdel)

/-- an upload that reads back something else than the object may delete it; the object itself reads back -/
theorem spares_readback {req : Request} {logical key : String} {alg : Algorithm} {digest : Digest} (hplain : Plain alg)
    (hkey : key = objectKey digest (extFor alg)) (s : World) :
    (readback S req logical key alg digest).Safe (exec S) (Watched S x) (fun _ _ _ => True) (fun c _ _ => Leaves x c) ok
      (fun r _ => ∀ err, r = .error err → Leaves x (.deleteObject logical key)) s := by
  unfold readback
  split
  · refine safe_read (guarded_harmless hG) (by trivial) fun t e r u _ hI hok he => ?_
    by_cases hobj : logical = x.art.bucket ∧ key = x.art.objectKey
    · have hstored := hI.stored
      rw [← hobj.1, ← hobj.2] at hstored
      obtain ⟨-, bytes, data, rfl, hdata, hsha⟩ := get_stored (hG.base t _ hok).1 hplain hkey hstored he
      dsimp only
      rw [hdata]
      dsimp only
      rw [if_pos hsha]
      rintro err ⟨⟩
    · split
      · exact fun _ _ => hobj
      split
      · exact fun _ _ => hobj
      split
      · exact fun _ _ => hobj
      · exact fun _ _ => hobj
  · rintro err ⟨⟩

theorem spares_uploadPipeline (req : Request) : Spares S x ok (uploadPipeline S req) := by
  have happend : ∀ a, Spares S x ok (access (.appendVersion a)) :=
    fun a => spares_access hG (c := .appendVersion a) trivial
  refine walk_uploadPipeline (guarded_walk hG) req happend fun logical data => ?_
  unfold storeAndRegister
  split
  · exact keeps_ret _
  rename_i stored alg hcompress
  refine keeps_bind (spares_access hG (c := .putObject _ _ _) trivial) fun r => ?_
  split
  · exact keeps_ret _
  intro s
  refine safe_bind (spares_readback hG (compressRequest_ok hcompress).1 rfl s) fun r t hr => ?_
  split
  · rename_i err
    exact keeps_bind (spares_access hG (hr err rfl)) (fun _ => keeps_ret _) t
  · exact walk_register (guarded_walk hG) req _ _ _ _ happend _ _ t

theorem spares_body {c : Call} (hc : Allowed x c) : Spares S x ok (body S c) := by
  cases c with
  | upload req =>
    refine keeps_bind (keeps_bind (spares_uploadPipeline hG req) fun r => ?_) fun _ => keeps_ret _
    refine keeps_bind ?_ fun _ => keeps_ret _
    refine walk_afterUpload (guarded_walk hG) (fun lineageID lineage cap v hl hv => ?_) r
    obtain ⟨t, e, u, hI, -, he⟩ := hl
    cases he
    exact spares_victim hG hI hv
  | delete id => exact keeps_bind (spares_delete hG id) fun _ => keeps_ret _
  | restore id => exact keeps_bind (spares_restore hG hc) fun _ => keeps_ret _
  | purge id => exact keeps_bind (spares_purge hG hc) fun _ => keeps_ret _
  | rollback lineageID version =>
    refine keeps_bind (walk_rollback (guarded_walk hG) (fun _ _ => ?_) _ _) fun _ => keeps_ret _
    exact spares_access hG (c := .setLatest _ _) trivial
  | setLegalHold id hold => exact keeps_bind (spares_setLegalHold hG hc) fun _ => keeps_ret _
  | updateRetention id policy => exact keeps_bind (spares_updateRetention hG hc) fun _ => keeps_ret _
  | runOnce =>
    refine keeps_bind (walk_runOnce (guarded_walk hG) fun now n found a hfound ha => ?_) fun _ => keeps_ret _
    obtain ⟨t, e, u, hI, -, he⟩ := hfound
    exact spares_reap hG hI ((exec_findExpired he).2 a ha)
  | sweepOrphans maxPerBucket pages =>
    exact keeps_bind (walk_sweepOrphans (guarded_walk hG) (spares_sweepObject hG) maxPerBucket pages) fun _ =>
      keeps_ret _

/-! ## runs -/

/-- the record is there, and what is left of every call that is not in `early` leaves it -/
structure Watching (S : Service) (x : Watch) (ok : World → Cmd → Prop) (early : List Nat) (sys : Sys World Th) :
    Prop where
  watched : Watched S x sys.shared
  later : ∀ i t, i ∉ early → sys.pool i = some t → Spares S x ok t.code

theorem watching_next {early : List Nat} (sys : Sys World Th) (l : Act Call Env) (sys' : Sys World Th)
    (hi : Watching S x ok early sys) (hc : (Allows x l ∧ Aloof early x sys l) ∧ Guard (fun _ => ok) sys l)
    (hn : (calls S).next sys l = some sys') : Watching S x ok early sys' := by
  obtain ⟨⟨hallows, haloof⟩, hguard⟩ := hc
  cases l with
  | spawn i c =>
    obtain ⟨-, rfl⟩ := next_spawn hn
    refine ⟨hi.watched, fun j u hj hu => ?_⟩
    rcases update_cases hu with ⟨-, rfl⟩ | ⟨-, hp⟩
    · exact spares_body hG hallows
    · exact hi.later j u hj hp
  | step i e =>
    obtain ⟨t, t', m, hp, hs, rfl⟩ := next_step hn
    obtain ⟨c, k, a, hcode, he, rfl⟩ := prog_step hs
    have hnext : t.next = some c := next_of_code hcode
    have hok : ok sys.shared c := hguard t c hp hnext
    have hkeep : Watched S x m ∧ (i ∉ early → Spares S x ok (k a)) := by
      by_cases hearly : i ∈ early
      · exact ⟨guarded_exec hG c _ e a m hi.watched hok (haloof hearly t hp c hnext) he, fun h => absurd hearly h⟩
      have hcall := hi.later i t hearly hp
      rw [hcode] at hcall
      obtain ⟨hm, -, hk⟩ := hcall sys.shared sys.shared trivial hi.watched hok e a m he
      exact ⟨hm, fun _ s => safe_later (fun _ _ _ _ _ _ => trivial) hk (fun _ _ h => h) fun _ _ _ => trivial⟩
    refine ⟨hkeep.1, fun j u hj hu => ?_⟩
    rcases update_cases hu with ⟨rfl, rfl⟩ | ⟨-, hq⟩
    · exact hkeep.2 hj
    · exact hi.later j u hj hq

/-- **The record stays in its state and its object in the backend** in every interleaving of allowed calls. -/
theorem watched_run {sys₀ sys : Sys World Th} {run : List (Act Call Env)} {early : List Nat}
    (hfresh : ∀ i t, i ∉ early → sys₀.pool i = some t → Fresh S x t) (h0 : Watched S x sys₀.shared)
    (hC : Lts.Along (calls S).next (fun sys l => (Allows x l ∧ Aloof early x sys l) ∧ Guard (fun _ => ok) sys l) sys₀
      run)
    (hr : Lts.run (calls S).next sys₀ run = some sys) : Watched S x sys.shared := by
  have hinit : Watching S x ok early sys₀ := by
    refine ⟨h0, fun i t hi hp => ?_⟩
    rcases hfresh i t hi hp with hnone | ⟨hcode, hallowed⟩
    · obtain ⟨r, hcode⟩ := ret_of_next hnone
      rw [hcode]
      exact keeps_ret r
    · rw [hcode]
      exact spares_body hG hallowed
  exact (Lts.run_inv (watching_next hG) hinit hC hr).watched

end

end

end Storage
