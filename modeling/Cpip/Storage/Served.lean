import Cpip.Storage.Records

/-!
# Storage: every serveable artifact has its bytes

The artifact manager and the reaper, one call at a time.

* `Stored`, `Served`  an object is there, and it is there for every record that is served;
* `serveable_bytes`  **every serveable artifact has an object that decompresses to bytes of its hash**;
* `records_faithful`  **what holds in every interleaving**.
-/

namespace Storage

open Code Pool MemoryStore

/-- the count of the references to the object of a record that is purged -/
structure Count where
  bucket : String
  key : String
  id : String

def Cmd.counts : Cmd → Option Count
  | .countReferences bucket key (some id) => some ⟨bucket, key, id⟩
  | _ => none

section
variable (S : Service) (w : World)

def Stored (bucket key : String) : Prop :=
  ∃ p, physicalBucket S bucket = some p ∧ (w.objects.lookup (p, key)).isSome = true

def Served : Prop :=
  ∀ id a, w.store.find id = some a → a.state.serveable = true → Stored S w a.bucket a.objectKey

/-- no record that is served has the object -/
def Clear (bucket key : String) : Prop :=
  ∀ id a, w.store.find id = some a → a.state.serveable = true → ¬ (a.bucket = bucket ∧ a.objectKey = key)

def Fit : Cmd → Prop
  | .update a => a.state.serveable = true → ∀ cur, w.store.find a.id = some cur → cur.state.serveable = true
  | .updateState id expected next => next.serveable = true → expected.serveable = true ∨
      ∀ a, w.store.find id = some a → Stored S w a.bucket a.objectKey
  | .appendVersion a => Stored S w a.bucket a.objectKey
  | .deleteObject bucket key => Clear w bucket key
  | _ => True

/-- the record was added and is not served -/
structure Hidden (id : String) : Prop where
  known : ∃ x ∈ w.made, x.id = id
  hidden : ∀ a, w.store.find id = some a → a.state.serveable = false

/-- a purge counts its own record, or nothing -/
def Counted (c : Cmd) : Prop := ∀ x ∈ c.counts,
  (∃ a ∈ w.store.find x.id, a.state ≠ .deleted) ∨ w.store.countReferences x.bucket x.key = 0

instance (c : Cmd) : Decidable (Counted w c) := by
  unfold Counted
  infer_instance

end

section
variable {S : Service} {U : Bytes → Prop} {w m : World} {e : Env} {c : Cmd} {r : c.Ans}

theorem serveable_ne_deleted {s : State} (h : s.serveable = true) : s ≠ .deleted := by
  rintro rfl
  cases h

/-! ## one access -/

theorem stored_exec (hD : Distinct S) {bucket key : String} (h : Stored S w bucket key)
    (hc : c ≠ .deleteObject bucket key) (he : exec S c w e = some (r, m)) : Stored S m bucket key := by
  obtain ⟨p, hp, hsome⟩ := h
  refine ⟨p, hp, ?_⟩
  cases touch_exec he p key with
  | keep h =>
    rw [h]
    exact hsome
  | put modified hb h =>
    rw [h]
    rfl
  | delete hb h =>
    rw [hD _ _ p hb hp] at hc
    exact absurd rfl hc

/-- an object that is there reads back as what its key says -/
theorem get_stored {logical key : String} {alg : Algorithm} {digest : Digest} {raw : Except Err Bytes} (hB : Base S U w)
    (hplain : Plain alg) (hkey : key = objectKey digest (extFor alg)) (h : Stored S w logical key)
    (he : exec S (.getObject logical key none) w e = some (raw, m)) :
    m = w ∧ ∃ bytes data, raw = .ok bytes ∧ decompress S alg bytes = .ok data ∧ S.sha data = digest := by
  obtain ⟨p, hp, hsome⟩ := h
  obtain ⟨o, ho⟩ := Option.isSome_iff_exists.mp hsome
  obtain ⟨data, -, hdata, hsha⟩ := hB.sound p key o ho digest alg hplain hkey
  dsimp only [exec] at he
  rw [hp] at he
  dsimp only at he
  rw [ho] at he
  cases he
  exact ⟨rfl, _, data, rfl, hdata, hsha⟩

/-- **A fit access leaves every served record its object.** -/
theorem served_exec (hD : Distinct S) (hB : Base S U w) (hP : Proper S U w c) (h : Served S w) (hF : Fit S w c)
    (he : exec S c w e = some (r, m)) : Served S m := by
  -- the object of a record that was served is not the one that is deleted
  have hrow : ∀ id b, w.store.find id = some b → b.state.serveable = true → Stored S m b.bucket b.objectKey := by
    intro id b hb hs
    refine stored_exec hD (h id b hb hs) ?_ he
    rintro rfl
    exact hF id b hb hs ⟨rfl, rfl⟩
  intro id a ha hs
  cases change_exec he id with
  | keep h' => exact hrow id a (h' ▸ ha) hs
  | head isLatest hb h' =>
    cases ha.symm.trans h'
    have hstored := hrow id _ hb hs
    exact hstored
  | update hid hcur h' =>
    rename_i x cur
    cases ha.symm.trans h'
    subst hid
    obtain ⟨y, hy, hcore⟩ := hP
    have hsame := (hB.core_row hcur hy (congrArg Artifact.id hcore :)).symm.trans hcore
    have hstored := hrow x.id cur hcur (hF hs cur hcur)
    rw [(Artifact.same_object hsame).1, (Artifact.same_object hsame).2] at hstored
    exact hstored
  | state hid hcur hexp h' =>
    rename_i id' expected next cur
    cases ha.symm.trans h'
    subst hid
    rcases hF hs with hserve | hstored
    · rw [← hexp] at hserve
      exact hrow id' cur hcur hserve
    · exact stored_exec hD (hstored cur hcur) (by rintro ⟨⟩) he
  | delete hid _ h' => cases ha.symm.trans h'
  | append hid hnone h' =>
    cases ha.symm.trans h'
    exact stored_exec hD hF (by rintro ⟨⟩) he

/-! ## uploads and purges -/

/-- the accesses between the choice of an object and the record that is added for it -/
def Cmd.commits : Cmd → Bool
  | .clock => true
  | .newID => true
  | .getObject _ _ _ => true
  | .appendVersion _ => true
  | _ => false

def Cmd.Calm : Cmd → Prop
  | .update _ => False
  | .updateState _ _ next => next.serveable = false
  | _ => True

/-- what an upload and a purge rely on -/
structure Relies (S : Service) (R : Cmd → World → World → Prop) : Prop where
  known : ∀ c s t, R c s t → ∀ id, (∃ x ∈ s.made, x.id = id) → ∃ x ∈ t.made, x.id = id
  commit : ∀ c s t, c.commits = true → R c s t → ∀ bucket key, Stored S s bucket key → Stored S t bucket key
  mark : ∀ a s t, (∃ x ∈ s.made, x.id = a.id) → s.store.find a.id = some a →
    R (.updateState a.id a.state .deleting) s t →
    ∀ cur, t.store.find a.id = some cur → cur.state.serveable = true → cur.state = a.state
  count : ∀ bucket key id s t, R (.countReferences bucket key (some id)) s t → Hidden s id → Hidden t id
  delete : ∀ bucket key s t, R (.deleteObject bucket key) s t → Clear s bucket key → Clear t bucket key

theorem relies_eq : Relies S (fun _ => Eq) where
  known := by
    rintro c s t rfl id h
    exact h
  commit := by
    rintro c s t - rfl bucket key h
    exact h
  mark := by
    rintro a s t - ha rfl cur hcur -
    cases ha.symm.trans hcur
    rfl
  count := by
    rintro bucket key id s t rfl h
    exact h
  delete := by
    rintro bucket key s t rfl h
    exact h

end

section
variable {S : Service} {U : Bytes → Prop} {R : Cmd → World → World → Prop} {T : Cmd → Prop}
  {ok : World → Cmd → Prop} {ρ : Type}

structure Settled (S : Service) (U : Bytes → Prop) (T : Cmd → Prop) (ok : World → Cmd → Prop) : Prop where
  distinct : Distinct S
  base : ∀ t c, ok t c → Base S U t ∧ Proper S U t c
  counted : ∀ t c, ok t c → Counted t c
  calm : ∀ c, c.Calm → T c

variable (hS : Settled S U T ok)
include hS

theorem settled_exec (c : Cmd) (t : World) (e : Env) (a : c.Ans) (u : World) (hI : Served S t) (hok : ok t c)
    (hF : Fit S t c ∧ T c) (he : exec S c t e = some (a, u)) : Served S u :=
  served_exec hS.distinct (hS.base t c hok).1 (hS.base t c hok).2 hI hF.1 he

theorem settled_harmless : Harmless S (Served S) (fun c t _ => Fit S t c ∧ T c) ok := by
  intro c hc t e a u hI hok he
  have hF : Fit S t c ∧ T c := by
    cases c with
    | update a | updateState id expected next | appendVersion a | deleteObject bucket key => exact hc.elim
    | _ => exact ⟨trivial, hS.calm _ trivial⟩
  exact ⟨settled_exec hS c t e a u hI hok hF he, hF⟩

theorem keeps_calm {c : Cmd} (hF : ∀ t, Fit S t c ∧ T c) :
    Keeps S (Served S) R (fun c t _ => Fit S t c ∧ T c) ok (access c) :=
  fun _ => safe_call (settled_exec hS) fun t _ _ _ => ⟨hF t, fun _ _ _ _ _ => trivial⟩

theorem settled_walk : Walk (fun x => Keeps S (Served S) R (fun c t _ => Fit S t c ∧ T c) ok x)
    (Answers S (Served S) ok) :=
  walk_keeps (settled_harmless hS)

variable (hR : Relies S R)
include hR

theorem safe_commit {c : Cmd} {f : c.Ans → Op ρ} {Q : ρ → World → Prop} {s : World} {bucket key : String}
    (hc : c.commits = true) (hq : c.Quiet) (h : Stored S s bucket key) (hf : ∀ a u, Stored S u bucket key →
      (f a).Safe (exec S) (Served S) R (fun c t _ => Fit S t c ∧ T c) ok Q u) :
    ((access c).bind f).Safe (exec S) (Served S) R (fun c t _ => Fit S t c ∧ T c) ok Q s := by
  refine safe_read (settled_harmless hS) hq fun t e a u hRt _ _ he => hf a u ?_
  refine stored_exec hS.distinct (hR.commit c s t hc hRt bucket key h) ?_ he
  rintro rfl
  exact hq

theorem serves_register {req : Request} {logical key : String} {digest : Digest} {size : Nat} {alg : Algorithm}
    {dedup : Bool} {s : World} (h : Stored S s logical key) :
    (register S req logical key digest size alg dedup).Safe (exec S) (Served S) R (fun c t _ => Fit S t c ∧ T c) ok
      (fun _ _ => True) s := by
  have hlineage : (lineageFor req).Safe (exec S) (Served S) R (fun c t _ => Fit S t c ∧ T c) ok
      (fun _ u => Stored S u logical key) s := by
    unfold lineageFor
    split
    · exact safe_commit hS hR (f := .ret) rfl trivial h fun _ _ hu => hu
    · exact h
  refine safe_bind hlineage fun lineageID t ht => ?_
  refine safe_commit hS hR rfl trivial ht fun id u hu => ?_
  have hresolve : (resolvePolicy S req.type req.retention).Safe (exec S) (Served S) R (fun c t _ => Fit S t c ∧ T c) ok
      (fun _ u => Stored S u logical key) u := by
    unfold resolvePolicy
    split
    · exact safe_commit hS hR rfl trivial hu fun _ _ hv => hv
    · exact hu
  refine safe_bind hresolve fun retention v hv => ?_
  refine safe_fit (settled_exec hS) fun t hRt _ _ => ⟨⟨?_, hS.calm _ trivial⟩, fun e r u _ _ => ?_⟩
  · refine hR.commit _ v t ?_ hRt logical key hv
    rfl
  · split <;> trivial

theorem serves_readback {req : Request} {logical key : String} {alg : Algorithm} {digest : Digest} {s : World}
    (hplain : Plain alg) (hkey : key = objectKey digest (extFor alg)) (h : Stored S s logical key) :
    (readback S req logical key alg digest).Safe (exec S) (Served S) R (fun c t _ => Fit S t c ∧ T c) ok
      (fun r u => r = .ok () ∧ Stored S u logical key) s := by
  unfold readback
  split
  · refine safe_read (settled_harmless hS) (by trivial) fun t e a u hRt _ hok he => ?_
    have hstored := hR.commit _ s t (by rfl) hRt logical key h
    obtain ⟨rfl, bytes, data, rfl, hdata, hsha⟩ := get_stored (hS.base t _ hok).1 hplain hkey hstored he
    dsimp only
    rw [hdata]
    dsimp only
    rw [if_pos hsha]
    exact ⟨rfl, hstored⟩
  · exact ⟨rfl, h⟩

theorem serves_uploadPipeline (req : Request) :
    Keeps S (Served S) R (fun c t _ => Fit S t c ∧ T c) ok (uploadPipeline S req) := by
  intro s
  unfold uploadPipeline
  split
  · trivial
  rename_i logical data hvalid
  -- an object that is found is there
  refine safe_bind (M := fun found u => ∀ a, found = some a → Stored S u logical a.objectKey) ?_ ?_
  · unfold deduplicate
    split
    · rintro a ⟨⟩
    refine safe_read (settled_harmless hS) (by trivial) fun t e r u _ hI _ he => ?_
    split
    · rename_i existing
      rintro a ⟨⟩
      obtain ⟨rfl, hmatch⟩ := exec_findByContentHash he
      obtain ⟨hrow, hmatch⟩ := List.mem_filter.mp (hmatch existing rfl)
      simp only [Bool.and_eq_true, decide_eq_true_eq] at hmatch
      have hserve : existing.state.serveable = true := by rw [hmatch.2]; rfl
      have hstored := hI existing.id existing (find_row hrow) hserve
      rw [hmatch.1.1] at hstored
      exact hstored
    · rintro a ⟨⟩
  · intro found t hfound
    split
    · exact serves_register hS hR (hfound _ rfl)
    unfold storeAndRegister
    split
    · trivial
    rename_i stored alg hcompress
    obtain ⟨hplain, -⟩ := compressRequest_ok hcompress
    obtain ⟨p, hp⟩ := Option.isSome_iff_exists.mp (validate_ok hvalid)
    refine safe_fit (settled_exec hS) fun t _ _ _ => ⟨⟨trivial, hS.calm _ trivial⟩, fun e r u he _ => ?_⟩
    dsimp only [exec] at he
    rw [hp] at he
    cases he
    refine safe_bind (serves_readback hS hR hplain rfl ⟨p, hp, ?_⟩) fun r v hr => ?_
    · dsimp only
      rw [AList.lookup_insert]
      rfl
    · obtain ⟨rfl, hv⟩ := hr
      exact serves_register hS hR hv

theorem serves_purge (id : String) : Keeps S (Served S) R (fun c t _ => Fit S t c ∧ T c) ok (purge id) := by
  intro s
  refine safe_read (settled_harmless hS) (by trivial) fun t e r u _ _ hok he => ?_
  cases he
  split
  · trivial
  rename_i a ha
  have hrow := get_ok ha
  have hid : a.id = id := find_id hrow
  subst hid
  have hknown : ∃ x ∈ t.made, x.id = a.id := by
    obtain ⟨x, hx, hcore⟩ := (hS.base t _ hok).1.rows a.id a hrow
    exact ⟨x, hx, (congrArg Artifact.id hcore :)⟩
  split
  · trivial
  have hmark : (markDeleting a).Safe (exec S) (Served S) R (fun c t _ => Fit S t c ∧ T c) ok
      (fun _ u => Hidden u a.id) t := by
    unfold markDeleting
    split
    · rename_i hstate
      refine safe_fit (settled_exec hS) fun t' hRt _ _ => ⟨⟨by rintro ⟨⟩, hS.calm _ rfl⟩, fun e r u he _ => ?_⟩
      obtain ⟨x, hx, hid⟩ := hR.known _ t t' hRt a.id hknown
      refine ⟨⟨x, made_mono he hx, hid⟩, fun b hb => ?_⟩
      rcases exec_updateState he with ⟨-, rfl, hno⟩ | ⟨-, cur, store, -, -, -, rfl, hself, -⟩
      · rw [Bool.eq_false_iff]
        intro hs
        have hsame := hR.mark a t u hknown hrow hRt b hb hs
        have hcan := hno b hb hsame
        rw [canTransition_deleting hstate.1] at hcan
        cases hcan
      · cases hb.symm.trans hself
        rfl
    · rename_i hstate
      rw [not_and_or, not_not, not_not] at hstate
      refine ⟨hknown, fun b hb => ?_⟩
      cases hrow.symm.trans hb
      rcases hstate with hstate | hstate <;> rw [hstate] <;> rfl
  refine safe_bind hmark fun _ t' hhidden => safe_bind (M := fun _ _ => True) ?_ ?_
  · refine safe_fit (settled_exec hS) fun v hRv _ hok => ⟨⟨trivial, hS.calm _ trivial⟩, fun e refs u he _ => ?_⟩
    cases he
    have hhidden := hR.count _ _ _ t' v hRv hhidden
    split
    · rename_i hrefs
      have hclear : Clear v a.bucket a.objectKey := by
        intro id' b hb hs hobj
        have hrb : b.refers a.bucket a.objectKey = true :=
          Artifact.refers_iff.mpr ⟨hobj.1, hobj.2, serveable_ne_deleted hs⟩
        rcases hS.counted v _ hok _ rfl with ⟨x, hx, hstate⟩ | hzero
        · -- the record that is purged is a reference, and it is not served
          obtain ⟨hB, y, hy, hyid, hybucket, hykey⟩ := hS.base v _ hok
          have hcore := hB.core_row hx hy hyid
          have hrx : x.refers a.bucket a.objectKey = true := by
            obtain ⟨hbucket, hkey⟩ := Artifact.same_object hcore
            exact Artifact.refers_iff.mpr ⟨hbucket.symm.trans hybucket, hkey.symm.trans hykey, hstate⟩
          have heq := eq_of_countReferences hrefs hb hx hrb hrx
          subst heq
          rw [hhidden.hidden b hb] at hs
          cases hs
        · rw [countReferences_eq_zero.mp hzero id' b hb] at hrb
          cases hrb
      refine safe_fit (settled_exec hS) fun v' hRv' _ _ => ⟨⟨?_, hS.calm _ trivial⟩, fun _ r u _ _ => ?_⟩
      · exact hR.delete _ _ v v' hRv' hclear
      · split <;> trivial
    · trivial
  · intro r t _
    split
    · trivial
    · exact keeps_calm hS (c := .delete a.id) (fun _ => ⟨trivial, hS.calm _ trivial⟩) t

theorem serves_upload (req : Request) : Keeps S (Served S) R (fun c t _ => Fit S t c ∧ T c) ok (upload S req) := by
  refine keeps_bind (serves_uploadPipeline hS hR req) fun r => keeps_bind ?_ fun _ => keeps_ret r
  exact walk_afterUpload (settled_walk hS) (fun _ _ _ v _ _ => serves_purge hS hR v.id) r

end

/-! ## one call at a time -/

section
variable {S : Service} {U : Bytes → Prop} {ok : World → Cmd → Prop} {ρ : Type}
  (hS : Settled S U (fun _ => True) ok)
include hS

/-- the operation alone leaves every served record its object -/
abbrev Serves (S : Service) (ok : World → Cmd → Prop) (x : Op ρ) : Prop :=
  Keeps S (Served S) (fun _ => Eq) (fun c t _ => Fit S t c ∧ True) ok x

theorem serves_updateState (id : String) (expected next : State)
    (h : next.serveable = true → expected.serveable = true) : Serves S ok (access (.updateState id expected next)) :=
  keeps_calm hS fun _ => ⟨fun hn => .inl (h hn), trivial⟩

theorem serves_delete (id : String) : Serves S ok (delete id) := by
  refine walk_delete (settled_walk hS) fun a expected next _ _ _ hnext => serves_updateState hS _ _ _ fun hn => ?_
  cases hnext.symm.trans hn

theorem serves_restore (id : String) : Serves S ok (restore id) := by
  intro s
  refine safe_read (settled_harmless hS) (by trivial) fun t e r u _ _ _ he => ?_
  cases he
  split
  · trivial
  rename_i a ha
  have hrow := get_ok ha
  split
  · trivial
  refine safe_read (settled_harmless hS) (by trivial) fun t' e r u hR _ _ he => ?_
  subst hR
  dsimp only [exec] at he
  split at he
  · cases he
    trivial
  rename_i p hp
  cases he
  split
  · trivial
  · trivial
  rename_i hsome
  have hstored : Stored S t a.bucket a.objectKey := ⟨p, hp, by simpa using hsome⟩
  refine safe_call (settled_exec hS) fun v hR _ _ => ⟨⟨fun _ => .inr ?_, trivial⟩, fun _ _ _ _ _ => trivial⟩
  subst hR
  intro b hb
  cases hrow.symm.trans hb
  exact hstored

theorem serves_update {id : String} {a : Artifact} {t : World} (ha : t.store.find id = some a)
    (retention : RetentionPolicy) :
    (access (.update { a with retention })).Safe (exec S) (Served S) (fun _ => Eq) (fun c t _ => Fit S t c ∧ True) ok
      (fun _ _ => True) t := by
  refine safe_call (settled_exec hS) fun v hR _ _ => ⟨⟨fun hs cur hcur => ?_, trivial⟩, fun _ _ _ _ _ => trivial⟩
  subst hR
  have hid : a.id = id := find_id ha
  subst hid
  cases ha.symm.trans hcur
  exact hs

theorem serves_setLegalHold (id : String) (hold : Bool) : Serves S ok (setLegalHold id hold) := by
  intro s
  refine safe_read (settled_harmless hS) (by trivial) fun t e r u _ _ _ he => ?_
  cases he
  split
  · trivial
  · rename_i a ha
    exact serves_update hS (get_ok ha) _

theorem serves_updateRetention (id : String) (policy : RetentionPolicy) :
    Serves S ok (updateRetention S id policy) := by
  intro s
  refine safe_read (settled_harmless hS) (by trivial) fun t e r u _ _ _ he => ?_
  cases he
  split
  · trivial
  rename_i a ha
  have hrow := get_ok ha
  unfold resolvePolicy
  split
  · refine safe_read (settled_harmless hS) (by trivial) fun t' e now u hR _ _ he => ?_
    subst hR
    cases he
    exact serves_update hS hrow _
  · exact serves_update hS hrow _

theorem serves_reap {t : World} {now : Int} {a : Artifact} (ha : a ∈ t.store.expired now) :
    Serves S ok (reap S now a) := by
  have hserve : a.state.serveable = true := by
    have h := (List.mem_filter.mp ha).2
    simp only [Bool.and_eq_true, Bool.or_eq_true, decide_eq_true_eq] at h
    rcases h.1 with h | h <;> rw [h] <;> rfl
  exact walk_reap (settled_walk hS) (serves_updateState hS _ _ _ fun _ => hserve)
    (serves_updateState hS _ _ _ (by rintro ⟨⟩)) (serves_purge hS relies_eq a.id)

theorem serves_sweepObject (logical : String) (cutoff : Int) (o : String × Option Int) :
    Serves S ok (sweepObject S logical cutoff o) := by
  intro s
  unfold sweepObject
  split
  · trivial
  split
  · trivial
  refine safe_fit (settled_exec hS) fun t _ _ _ => ⟨⟨trivial, trivial⟩, fun e refs u he _ => ?_⟩
  cases he
  split
  · trivial
  rename_i hrefs
  split
  · trivial
  refine safe_fit (settled_exec hS) fun v hR _ _ => ⟨⟨?_, trivial⟩, fun _ _ _ _ _ => trivial⟩
  subst hR
  have hzero : t.store.countReferences logical o.1 = 0 := Nat.eq_zero_of_not_pos hrefs
  intro id b hb hs hobj
  have hno := countReferences_eq_zero.mp hzero id b hb
  rw [Artifact.refers_iff.mpr ⟨hobj.1, hobj.2, serveable_ne_deleted hs⟩] at hno
  cases hno

theorem serves_body (c : Call) : Serves S ok (body S c) := by
  cases c with
  | upload req => exact keeps_bind (serves_upload hS relies_eq req) fun _ => keeps_ret _
  | delete id => exact keeps_bind (serves_delete hS id) fun _ => keeps_ret _
  | restore id => exact keeps_bind (serves_restore hS id) fun _ => keeps_ret _
  | purge id => exact keeps_bind (serves_purge hS relies_eq id) fun _ => keeps_ret _
  | rollback lineageID version =>
    refine keeps_bind (walk_rollback (settled_walk hS) (fun _ _ => keeps_calm hS fun _ => ?_) _ _) fun _ => keeps_ret _
    exact ⟨trivial, trivial⟩
  | setLegalHold id hold => exact keeps_bind (serves_setLegalHold hS id hold) fun _ => keeps_ret _
  | updateRetention id policy => exact keeps_bind (serves_updateRetention hS id policy) fun _ => keeps_ret _
  | runOnce =>
    refine keeps_bind (walk_runOnce (settled_walk hS) fun now n found a hfound ha => ?_) fun _ => keeps_ret _
    obtain ⟨t, e, u, -, -, he⟩ := hfound
    exact serves_reap hS ((exec_findExpired he).2 a ha)
  | sweepOrphans maxPerBucket pages =>
    exact keeps_bind (walk_sweepOrphans (settled_walk hS) (serves_sweepObject hS) maxPerBucket pages) fun _ =>
      keeps_ret _

end

section
variable {S : Service} {run : List (Act Call Env)} {sys : Sys World Th}

/-- the calls are made one at a time, and a purge counts its own record or nothing -/
def Orderly (sys : Sys World Th) (l : Act Call Env) : Prop :=
  Solo sys l ∧ Guard (fun _ => Counted) sys l

theorem uploads_true (l : Act Call Env) : Uploads S (fun _ => True) l := by
  unfold Uploads
  split
  · exact fun _ _ _ => trivial
  · trivial

def Checked (S : Service) (w : World) (c : Cmd) : Prop :=
  (Base S (fun _ => True) w ∧ Proper S (fun _ => True) w c) ∧ Counted w c

theorem served_next (hD : Distinct S) (sys : Sys World Th) (l : Act Call Env) (sys' : Sys World Th)
    (hi : SoloSys (exec S) (Served S) (fun _ => Checked S) sys)
    (hc : Solo sys l ∧ Guard (fun _ => Checked S) sys l) (hn : (calls S).next sys l = some sys') :
    SoloSys (exec S) (Served S) (fun _ => Checked S) sys' := by
  have hS : Settled S (fun _ => True) (fun _ => True) (Checked S) :=
    ⟨hD, fun _ _ h => h.1, fun _ _ h => h.2, fun _ _ => trivial⟩
  refine solo_next (fun sys i c _ _ => ?_) (fun sys i e t c hD hp hnext => hD t c hp hnext) sys l sys' hi hc hn
  exact safe_weaken (fun _ _ _ _ => trivial) (fun _ _ h => h) (serves_body hS c sys.shared)

theorem served_run (hD : Distinct S) (hC : Lts.Along (calls S).next Orderly (idle {}) run)
    (hr : Lts.run (calls S).next (idle {}) run = some sys) : Served S sys.shared := by
  have hchecked : Lts.Along (calls S).next (fun sys l => Solo sys l ∧ Guard (fun _ => Checked S) sys l)
      (idle {}) run := by
    refine Lts.along_mono (fun sys l h => ⟨h.1.1, ?_⟩) _ _
      (Lts.along_and hC (records_along start_empty (fun l _ => uploads_true l) hr))
    exact guard_and h.2 h.1.2
  have h0 : Served S {} := fun id a ha => by cases ha
  exact (Lts.run_inv (served_next hD) (soloSys_idle h0) hchecked hr).1.shared

/-- **Every serveable artifact has its bytes**, along orderly runs, when buckets are apart. -/
theorem serveable_bytes (hD : Distinct S) (hC : Lts.Along (calls S).next Orderly (idle {}) run)
    (hr : Lts.run (calls S).next (idle {}) run = some sys) {id : String} {a : Artifact}
    (ha : sys.shared.store.find id = some a) (hs : a.state.serveable = true) :
    ∃ p o data, physicalBucket S a.bucket = some p ∧ sys.shared.objects.lookup (p, a.objectKey) = some o ∧
      decompress S a.compression o.data = .ok data ∧ S.sha data = a.contentHash := by
  obtain ⟨p, hp, hsome⟩ := served_run hD hC hr id a ha hs
  obtain ⟨o, ho⟩ := Option.isSome_iff_exists.mp hsome
  have hB := (records_run (U := fun _ => True) start_empty (fun l _ => uploads_true l) hr).shared
  have hkeyed := hB.keyed_row ha
  obtain ⟨data, -, hdata, hsha⟩ := hB.sound p a.objectKey o ho a.contentHash a.compression hkeyed.plain hkeyed.key
  exact ⟨p, o, data, hp, ho, hdata, hsha⟩

/-- **The object under the key of a record holds bytes of its hash, and what an upload returned stays on record.** -/
theorem records_faithful (hr : Lts.run (calls S).next (idle {}) run = some sys) :
    (∀ id a p o, sys.shared.store.find id = some a → sys.shared.objects.lookup (p, a.objectKey) = some o →
      ∃ data, decompress S a.compression o.data = .ok data ∧ S.sha data = a.contentHash) ∧
    ∀ i t a, sys.pool i = some t → uploadedBy t = some a →
      a.id ∈ sys.shared.purged ∨ ∃ b, sys.shared.store.find a.id = some b ∧ b.core = a.core := by
  have hrec := records_run (U := fun _ => True) start_empty (fun l _ => uploads_true l) hr
  have hB := hrec.shared
  refine ⟨fun id a p o ha ho => ?_, fun i t a hp ha => ?_⟩
  · have hkeyed := hB.keyed_row ha
    obtain ⟨data, -, hdata⟩ := hB.sound p a.objectKey o ho a.contentHash a.compression hkeyed.plain hkeyed.key
    exact ⟨data, hdata⟩
  · obtain ⟨-, -, -, -, -, -, hmade, -⟩ := hrec.uploaded hp ha
    refine (hB.kept a hmade).imp_right fun hsome => ?_
    obtain ⟨b, hb⟩ := Option.isSome_iff_exists.mp hsome
    exact ⟨b, hb, (hB.core_row hb hmade rfl).symm⟩

end

/-! ## runs -/

def sampleRequest (bucket : String) : Request := { data := some [1, 2, 3], type := .uploadedFile, bucket }

def storeRun (i : Nat) (bucket id : String) : List (Act Call Env) :=
  [.spawn i (.upload (sampleRequest bucket)), .step i {}, .step i {}, .step i { fresh := id ++ "-lineage" },
    .step i { fresh := id }, .step i {}]

def dedupRun (i : Nat) (bucket id found : String) : List (Act Call Env) :=
  [.spawn i (.upload (sampleRequest bucket)), .step i { order := [found] }, .step i { fresh := id ++ "-lineage" },
    .step i { fresh := id }, .step i {}]

/-- a call with some accesses that leave the environment no choice -/
def callRun (i : Nat) (c : Call) (n : Nat) : List (Act Call Env) := .spawn i c :: List.replicate n (.step i {})

abbrev sampleRun : List (Act Call Env) → Option (Sys World Th) := Lts.run (calls sample).next (idle {})

def purgeRun : List (Act Call Env) :=
  storeRun 0 "" "x" ++ dedupRun 1 "" "y" "x" ++ callRun 2 (.purge "x") 4

theorem distinct_sample : Distinct sample := distinct_of_nodup (by decide +kernel)

theorem serveable_bytes_purgeRun : Distinct sample ∧
    Lts.Along (calls sample).next Orderly (idle {}) purgeRun ∧
    ∃ sys ∈ sampleRun purgeRun,
      sys.shared.store.find "x" = none ∧ ∃ a ∈ sys.shared.store.find "y", a.state.serveable = true ∧
      ∃ p o data, physicalBucket sample a.bucket = some p ∧
        sys.shared.objects.lookup (p, a.objectKey) = some o ∧
        decompress sample a.compression o.data = .ok data ∧
        sample.sha data = a.contentHash := by
  have hend : ∃ sys ∈ sampleRun purgeRun,
      sys.shared.store.find "x" = none ∧ ∃ a ∈ sys.shared.store.find "y", a.state.serveable = true := by
    decide +kernel
  obtain ⟨sys, hr, hx, a, ha, hs⟩ := hend
  refine ⟨distinct_sample, ?hC, sys, hr, hx, a, ha, hs, serveable_bytes distinct_sample ?hC hr ha hs⟩
  refine along_bounded (n := 3) (D := fun sys l => SoloBelow 3 sys l ∧ Guard (fun _ => Counted) sys l)
    (fun sys l hl hn => ⟨solo_below hl.1 hn, hl.2⟩) (by decide) (by decide +kernel)

theorem records_faithful_purgeRun : ∃ sys ∈ sampleRun purgeRun,
    (∃ t ∈ sys.pool 1, ∃ a ∈ uploadedBy t, a.id = "y") ∧ ∀ i t a, sys.pool i = some t → uploadedBy t = some a →
      a.id ∈ sys.shared.purged ∨ ∃ b, sys.shared.store.find a.id = some b ∧ b.core = a.core :=
  Lts.exists_run_and (by decide +kernel) fun _ hr _ => (records_faithful hr).2

def deletedRun : List (Act Call Env) :=
  storeRun 0 "" "x" ++ dedupRun 1 "" "y" "x" ++ callRun 2 (.delete "x") 3 ++ callRun 3 (.purge "x") 4

def sharedConfig : Config where
  provider := .filesystem
  buckets := ((∅ : AList fun _ : String => String).insert "b" "disk").insert "a" "disk"
  defaultBucket := "a"
  compression := Config.default.compression
  retention := Config.default.retention
  cleanup := Config.default.cleanup
  maxObjectSize := Config.default.maxObjectSize

theorem validate_sharedConfig : sharedConfig.validate = .ok sharedConfig := by
  have hcompression : sharedConfig.compression.validate = .ok sharedConfig.compression := by
    unfold CompressionConfig.validate
    rw [if_neg (by decide +kernel), if_neg (by decide +kernel)]
    rfl
  unfold Config.validate
  rw [hcompression]
  rfl

/-- the same bytes in two buckets, and a purge of the first artifact -/
def sharedRun : List (Act Call Env) := storeRun 0 "a" "x" ++ storeRun 1 "b" "y" ++ callRun 2 (.purge "x") 5

/-- **A purge takes the object of an artifact that is served**, after a soft delete or through a second bucket. -/
theorem purge_takes_served_object : (Config.default.validate = .ok Config.default ∧
      Lts.Along (calls sample).next Solo (idle {}) deletedRun ∧
      ∃ sys ∈ sampleRun deletedRun,
        (∀ i < 4, ∀ t ∈ sys.pool i, t.result.isSome = true) ∧
        ∃ a ∈ sys.shared.store.find "y", a.state = .available ∧ a.bucket = "artifacts" ∧
          ∃ p ∈ physicalBucket sample a.bucket, sys.shared.objects.lookup (p, a.objectKey) = none) ∧
    sharedConfig.validate = .ok sharedConfig ∧
      Lts.Along (calls (sampleService sharedConfig)).next Solo (idle {}) sharedRun ∧
      ∃ sys ∈ Lts.run (calls (sampleService sharedConfig)).next (idle {}) sharedRun,
        (∀ i < 3, ∀ t ∈ sys.pool i, t.result.isSome = true) ∧
        ∃ a ∈ sys.shared.store.find "y", a.state = .available ∧ a.bucket = "b" ∧
          ∃ p ∈ physicalBucket (sampleService sharedConfig) a.bucket,
            sys.shared.objects.lookup (p, a.objectKey) = none := by
  refine ⟨⟨validate_default, ?_, by decide +kernel⟩, validate_sharedConfig, ?_, by decide +kernel⟩
  · exact along_bounded (n := 4) (D := SoloBelow 4) (fun _ _ hl hn => solo_below hl hn) (by decide)
      (by decide +kernel)
  · exact along_bounded (n := 3) (D := SoloBelow 3) (fun _ _ hl hn => solo_below hl hn) (by decide)
      (by decide +kernel)

end Storage
