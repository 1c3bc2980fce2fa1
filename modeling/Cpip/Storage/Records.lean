import Cpip.Storage.Names

/-!
# Storage: the records and the objects in every interleaving

What holds of the metadata and of the backend whatever calls interleave.

* `Base`  **every record that was added is keyed and is as it was added, up to its head, its retention and its
  state, until it is removed; and every object holds its bytes**.

`U` is the set of the bytes that are uploaded.
-/

namespace Storage

open Code Pool List Lts

def Artifact.core (a : Artifact) : Artifact := { a with isLatest := false, retention := {}, state := .pending }

variable {a : Artifact}

theorem Artifact.same_object {b : Artifact} (h : a.core = b.core) : a.bucket = b.bucket ∧ a.objectKey = b.objectKey :=
  ⟨(congrArg Artifact.bucket h :), (congrArg Artifact.objectKey h :)⟩

section
variable (S : Service) (U : Bytes → Prop)

/-- the record lies under the key of its hash -/
structure Keyed (a : Artifact) : Prop where
  bucket : (physicalBucket S a.bucket).isSome = true
  plain : Plain a.compression
  key : a.objectKey = objectKey a.contentHash (extFor a.compression)

/-- the stored bytes are those that the key says -/
def Holds (key : String) (stored : Bytes) : Prop :=
  ∀ hash alg, Plain alg → key = objectKey hash (extFor alg) →
    ∃ data, U data ∧ decompress S alg stored = .ok data ∧ S.sha data = hash

/-- what holds of the records and the objects in every interleaving -/
structure Base (w : World) : Prop where
  keyed : ∀ x ∈ w.made, Keyed S x
  named : ∀ x ∈ w.made, x.id ≠ ""
  unique : ∀ x ∈ w.made, ∀ y ∈ w.made, x.id = y.id → x = y
  rows : ∀ id a, w.store.find id = some a → ∃ x ∈ w.made, x.core = a.core
  kept : ∀ x ∈ w.made, x.id ∈ w.purged ∨ (w.store.find x.id).isSome = true
  sound : ∀ p key o, w.objects.lookup (p, key) = some o → Holds S U key o.data

/-- what a call writes is about the record that was added under the identifier -/
def Proper (w : World) : Cmd → Prop
  | .update a => ∃ x ∈ w.made, x.core = a.core
  | .appendVersion a => Keyed S a ∧ a.state = .available ∧ New w a.id
  | .putObject _ key stored => Holds S U key stored
  | .countReferences bucket key (some id) => ∃ x ∈ w.made, x.id = id ∧ x.bucket = bucket ∧ x.objectKey = key
  | _ => True

end

section
variable {S : Service} {U : Bytes → Prop} {w m : World}

theorem keyed_core {b : Artifact} (h : a.core = b.core) (ha : Keyed S a) : Keyed S b := by
  have hcore : Keyed S a.core := ⟨ha.bucket, ha.plain, ha.key⟩
  rw [h] at hcore
  exact ⟨hcore.bucket, hcore.plain, hcore.key⟩

variable {id : String}

theorem Base.keyed_row (hB : Base S U w) (ha : w.store.find id = some a) : Keyed S a := by
  obtain ⟨x, hx, hcore⟩ := hB.rows id a ha
  exact keyed_core hcore (hB.keyed x hx)

theorem Base.core_row (hB : Base S U w) {x : Artifact} (ha : w.store.find id = some a) (hx : x ∈ w.made)
    (hid : x.id = id) : x.core = a.core := by
  obtain ⟨y, hy, hcore⟩ := hB.rows id a ha
  have hya : y.id = id := (congrArg Artifact.id hcore).trans (find_id ha :)
  rw [hB.unique x hx y hy (hid.trans hya.symm), hcore]

/-- a state from which calls may be made -/
structure Start (S : Service) (U : Bytes → Prop) (w : World) : Prop where
  base : Base S U w
  used : ∀ x ∈ w.made, x.id ∈ w.used

theorem start_empty : Start S U {} where
  base := {
    keyed := fun x hx => by cases hx
    named := fun x hx => by cases hx
    unique := fun x hx => by cases hx
    rows := fun id a ha => by cases ha
    kept := fun x hx => by cases hx
    sound := fun p key o ho => by cases ho }
  used x hx := by cases hx

/-! ## one access -/

section
variable {e : Env} {c : Cmd} {r : c.Ans}

theorem rows_exec (hB : Base S U w) (hP : Proper S U w c) (he : exec S c w e = some (r, m))
    (ha : m.store.find id = some a) : ∃ x ∈ m.made, x.core = a.core := by
  have hold : ∀ b, w.store.find id = some b → ∃ x ∈ m.made, x.core = b.core := by
    intro b hb
    obtain ⟨x, hx, hcore⟩ := hB.rows id b hb
    exact ⟨x, made_mono he hx, hcore⟩
  cases change_exec he id with
  | keep h => exact hold a (h ▸ ha)
  | head isLatest h h' | state hid h hs h' =>
    cases ha.symm.trans h'
    obtain ⟨x, hx, hcore⟩ := hold _ h
    exact ⟨x, hx, hcore⟩
  | update hid h h' =>
    rename_i y cur
    cases ha.symm.trans h'
    obtain ⟨x, hx, hcore⟩ := hP
    have hxid : x.id = id := (congrArg Artifact.id hcore).trans hid
    have hcur := hB.core_row h hx hxid
    -- the lineage that is kept is the one of the snapshot
    have hlin : cur.lineageID = y.lineageID := (congrArg Artifact.lineageID (hcur.symm.trans hcore) :)
    refine ⟨x, made_mono he hx, ?_⟩
    rw [hlin]
    exact hcore
  | delete hid h h' hp => cases ha.symm.trans h'
  | append hid h h' =>
    cases ha.symm.trans h'
    refine ⟨_, ?_, rfl⟩
    rcases exec_appendVersion he with ⟨-, rfl⟩ | ⟨-, -, rfl, -, -⟩
    · cases h.symm.trans h'
    · exact mem_append_right _ (mem_singleton_self _)

theorem kept_exec (he : exec S c w e = some (r, m)) (h : id ∈ w.purged ∨ (w.store.find id).isSome = true) :
    id ∈ m.purged ∨ (m.store.find id).isSome = true := by
  rcases h with h | h
  · exact .inl (purged_mono he h)
  cases change_exec he id with
  | keep h' =>
    rw [h']
    exact .inr h
  | head isLatest _ h' | update hid _ h' | state hid _ hs h' | append hid hnone h' =>
    rw [h']
    exact .inr rfl
  | delete hid _ h' hp => exact .inl hp

/-- **A proper access keeps the base.** -/
theorem base_exec (hB : Base S U w) (hP : Proper S U w c) (he : exec S c w e = some (r, m)) : Base S U m := by
  refine ⟨fun x hx => ?_, fun x hx => ?_, fun x hx y hy hid => ?_, fun id a ha => rows_exec hB hP he ha,
    fun x hx => ?_, fun p key o ho => ?_⟩
  · rcases made_exec he hx with hx | ⟨z, rfl, -, rfl, -⟩
    · exact hB.keyed x hx
    · exact ⟨hP.1.bucket, hP.1.plain, hP.1.key⟩
  · rcases made_exec he hx with hx | ⟨z, rfl, hid, rfl, -⟩
    · exact hB.named x hx
    · exact hid
  · rcases made_exec he hx with hx | ⟨z, rfl, -, rfl, -⟩
    · rcases made_exec he hy with hy | ⟨z, rfl, -, rfl, -⟩
      · exact hB.unique x hx y hy hid
      · exact absurd hid (hP.2.2.2 x hx)
    · rcases made_exec he hy with hy | ⟨z', hz, -, rfl, -⟩
      · exact absurd hid.symm (hP.2.2.2 y hy)
      · cases hz
        rfl
  · rcases made_exec he hx with hx | ⟨z, -, -, rfl, hself⟩
    · exact kept_exec he (hB.kept x hx)
    refine .inr ?_
    show (m.store.find z.id).isSome = true
    rw [hself]
    rfl
  · cases touch_exec he p key with
    | keep h => exact hB.sound p key o (h ▸ ho)
    | put modified hb h =>
      cases ho.symm.trans h
      exact hP
    | delete hb h => cases ho.symm.trans h

end

/-! ## the operations -/

def Grows (_ : Cmd) (s t : World) : Prop := ∀ x ∈ s.made, x ∈ t.made

def Named (w : World) (c : Cmd) : Prop := ∀ a, c = .appendVersion a → New w a.id

/-- the operation makes proper accesses, whatever the others do -/
abbrev Tidy (S : Service) (U : Bytes → Prop) {ρ : Type} (x : Op ρ) : Prop :=
  Keeps S (Base S U) Grows (fun c t _ => Proper S U t c) Named x

theorem proper_free {c : Cmd} (hc : c.Free) : Proper S U w c := by
  cases c with
  | update a | appendVersion a | putObject bucket key stored => exact hc.elim
  | countReferences bucket key purged =>
    cases purged with
    | none => trivial
    | some id => exact hc.elim
  | _ => trivial

theorem tidy_exec (c : Cmd) (t : World) (e : Env) (a : c.Ans) (u : World) (hB : Base S U t) (_ : Named t c)
    (hP : Proper S U t c) (he : exec S c t e = some (a, u)) : Base S U u := base_exec hB hP he

theorem tidy_uses {ρ : Type} {x : Op ρ} (hx : x.Uses Cmd.Free) : Tidy S U x :=
  safe_uses hx fun _ hc _ _ _ _ hB _ he => ⟨base_exec hB (proper_free hc) he, proper_free hc⟩

theorem tidy_harmless : Harmless S (Base S U) (fun c t _ => Proper S U t c) Named := by
  intro c hc t e a u hB _ he
  have hfree : c.Free := by
    cases c with
    | countReferences bucket key purged | update a | appendVersion a | putObject bucket key stored => exact hc.elim
    | _ => trivial
  exact ⟨base_exec hB (proper_free hfree) he, proper_free hfree⟩

theorem safe_made {ρ : Type} {x : Op ρ} {Q : ρ → World → Prop} {s : World} {y : Artifact}
    (h : x.Safe (exec S) (Base S U) Grows (fun c t _ => Proper S U t c) Named Q s) (hy : y ∈ s.made) :
    x.Safe (exec S) (Base S U) Grows (fun c t _ => Proper S U t c) Named (fun r u => Q r u ∧ y ∈ u.made) s :=
  safe_frame (fun _ _ _ hR hs => hR y hs) (fun _ _ _ _ _ he hy => made_mono he hy) h hy

theorem tidy_purge (id : String) : Tidy S U (purge id) := by
  intro s
  refine safe_read tidy_harmless (by trivial) fun t e r u _ hB _ he => ?_
  cases he
  split
  · trivial
  rename_i a ha
  split
  · trivial
  obtain ⟨x, hx, hcore⟩ := hB.rows id a (MemoryStore.get_ok ha)
  have hmark : Tidy S U (markDeleting a) := tidy_uses (uses_markDeleting (fun _ hc => hc) a)
  refine safe_bind (safe_made (hmark _) hx) fun _ t' hx' => safe_bind (M := fun _ _ => True) ?_ ?_
  · refine safe_fit tidy_exec fun t'' hR hB'' _ => ⟨⟨x, hR x hx'.2, ?_⟩, fun e refs u he _ => ?_⟩
    · exact ⟨(congrArg Artifact.id hcore :), Artifact.same_object hcore⟩
    refine tidy_uses ?_ u
    split
    · refine uses_cmd trivial fun r => ?_
      split <;> trivial
    · trivial
  · intro r t _
    refine tidy_uses ?_ t
    split
    · trivial
    · exact uses_cmd trivial fun _ => trivial

theorem tidy_walk : Walk (fun x => Tidy S U x) (Answers S (Base S U) Named) := walk_keeps tidy_harmless

theorem tidy_afterUpload (r : Except Err Result) : Tidy S U (afterUpload S r) :=
  walk_afterUpload tidy_walk (fun _ _ _ v _ _ => tidy_purge v.id) r

theorem tidy_runOnce : Tidy S U (runOnce S) := by
  have hstate : ∀ id expected next, Tidy S U (access (.updateState id expected next)) :=
    fun _ _ _ => tidy_uses ⟨trivial, fun _ => trivial⟩
  exact walk_runOnce tidy_walk fun _ _ _ a _ _ => walk_reap tidy_walk (hstate _ _ _) (hstate _ _ _) (tidy_purge a.id)

theorem tidy_update {s : World} (hB : Base S U s) (ha : s.store.find id = some a) (t : ArtType)
    (requested : RetentionPolicy) :
    (resolvePolicy S t requested >>= fun retention => access (.update { a with retention })).Safe (exec S) (Base S U)
      Grows (fun c t _ => Proper S U t c) Named (fun _ _ => True) s := by
  obtain ⟨x, hx, hcore⟩ := hB.rows id a ha
  have hresolve : Tidy S U (resolvePolicy S t requested) := walk_resolvePolicy tidy_walk t requested
  refine safe_bind (safe_made (hresolve s) hx) fun retention u hu => ?_
  exact safe_call tidy_exec fun v hR _ _ => ⟨⟨x, hR x hu.2, hcore⟩, fun _ _ _ _ _ => trivial⟩

theorem tidy_setLegalHold (id : String) (hold : Bool) : Tidy S U (setLegalHold id hold) := by
  intro s
  refine safe_read tidy_harmless (by trivial) fun t e r u _ hB _ he => ?_
  cases he
  split
  · trivial
  rename_i a ha
  obtain ⟨x, hx, hcore⟩ := hB.rows id a (MemoryStore.get_ok ha)
  exact safe_call tidy_exec fun v hR _ _ => ⟨⟨x, hR x hx, hcore⟩, fun _ _ _ _ _ => trivial⟩

theorem tidy_updateRetention (id : String) (policy : RetentionPolicy) : Tidy S U (updateRetention S id policy) := by
  intro s
  refine safe_read tidy_harmless (by trivial) fun t e r u _ hB _ he => ?_
  cases he
  split
  · trivial
  · rename_i a ha
    exact tidy_update hB (MemoryStore.get_ok ha) a.type policy

/-! ## the upload -/

variable {req : Request} {data : Bytes} {alg : Algorithm}

theorem compressRequest_ok {stored : Bytes} (h : compressRequest S req data = .ok (stored, alg)) :
    Plain alg ∧ decompress S alg stored = .ok data := by
  unfold compressRequest at h
  split at h
  · cases h
    exact ⟨.inl rfl, rfl⟩
  · exact decompress_compress S h

theorem holds_stored {stored : Bytes} (hU : U data) (hplain : Plain alg) (hdata : decompress S alg stored = .ok data) :
    Holds S U (objectKey (S.sha data) (extFor alg)) stored := by
  intro hash alg' hplain' hkey
  obtain ⟨hhash, hext⟩ := objectKey_inj hkey
  have halg : alg = alg' := plain_inj hplain hplain' hext
  subst halg
  exact ⟨data, hU, hdata, hhash⟩

/-- the upload of some bytes has returned the record that was added for them -/
def Uploaded (S : Service) (data : Bytes) (r : Except Err Result) (w : World) : Prop :=
  ∀ res, r = .ok res → res.artifact ∈ w.made ∧ res.artifact.contentHash = S.sha data ∧ res.artifact.size = data.length

variable {logical : String}

theorem safe_register {key : String} (data : Bytes) (dedup : Bool) (hb : (physicalBucket S logical).isSome = true)
    (hplain : Plain alg) (hkey : key = objectKey (S.sha data) (extFor alg)) (s : World) :
    (register S req logical key (S.sha data) data.length alg dedup).Safe (exec S) (Base S U) Grows
      (fun c t _ => Proper S U t c) Named (Uploaded S data) s := by
  have hlineage : Tidy S U (lineageFor req) := walk_lineageFor tidy_walk req
  have hresolve : Tidy S U (resolvePolicy S req.type req.retention) := walk_resolvePolicy tidy_walk _ _
  refine safe_bind (hlineage s) fun lineageID _ _ => safe_read tidy_harmless (by trivial) fun _ _ id u _ _ _ _ => ?_
  refine safe_bind (hresolve u) fun retention _ _ => safe_fit tidy_exec fun t _ _ hnamed => ⟨?_, ?_⟩
  · exact ⟨⟨hb, hplain, hkey⟩, rfl, hnamed _ rfl⟩
  intro e r u he _
  rcases exec_appendVersion he with ⟨⟨err, rfl⟩, -⟩ | ⟨-, rfl, rfl, -, -⟩
  · intro res hres
    cases hres
  intro res hres
  cases hres
  exact ⟨mem_append_right _ (mem_singleton_self _), rfl, rfl⟩

theorem safe_storeAndRegister (hb : (physicalBucket S logical).isSome = true) (hU : U data) (s : World) :
    (storeAndRegister S req logical data).Safe (exec S) (Base S U) Grows (fun c t _ => Proper S U t c) Named
      (Uploaded S data) s := by
  unfold storeAndRegister
  split
  · rintro res ⟨⟩
  rename_i stored alg hcompress
  obtain ⟨hplain, hdata⟩ := compressRequest_ok hcompress
  refine safe_fit tidy_exec fun t _ _ _ => ⟨holds_stored hU hplain hdata, fun e r u _ _ => ?_⟩
  split
  · rintro res ⟨⟩
  refine safe_bind (walk_readback tidy_walk req _ _ _ _ u) fun r v _ => ?_
  split
  · refine safe_fit tidy_exec fun t _ _ _ => ⟨trivial, fun e r u _ _ => ?_⟩
    rintro res ⟨⟩
  · exact safe_register data false hb hplain rfl v

theorem validate_ok (h : validateAndMaterialize S req = .ok (logical, data)) :
    (physicalBucket S logical).isSome = true := by
  unfold validateAndMaterialize at h
  split at h
  · cases h
  split at h
  · cases h
  rename_i hb
  split at h
  · cases h
  split at h
  · cases h
  split at h
  · cases h
  · cases h
    simpa [Option.isSome_iff_ne_none] using hb

theorem safe_uploadPipeline (hU : ∀ logical data, validateAndMaterialize S req = .ok (logical, data) → U data)
    (s : World) : (uploadPipeline S req).Safe (exec S) (Base S U) Grows (fun c t _ => Proper S U t c) Named
      (fun r w => ∀ res, r = .ok res → ∃ logical data, validateAndMaterialize S req = .ok (logical, data) ∧
        Uploaded S data r w) s := by
  unfold uploadPipeline
  split
  · rintro res ⟨⟩
  rename_i logical data hvalid
  have hb := validate_ok hvalid
  refine safe_mono (Q := Uploaded S data) (fun r t h res _ => ⟨logical, data, hvalid, h⟩) ?_
  -- a record that is found lies under the key of the same hash
  refine safe_bind (M := fun found _ => ∀ a, found = some a →
    Plain a.compression ∧ a.objectKey = objectKey (S.sha data) (extFor a.compression)) ?_ fun found t hfound => ?_
  · unfold deduplicate
    split
    · rintro a ⟨⟩
    refine safe_read tidy_harmless (by trivial) fun t e r u _ hB _ he => ?_
    split
    · rename_i existing
      rintro a ⟨⟩
      have hmem := (exec_findByContentHash he).2 existing rfl
      obtain ⟨hrow, hmatch⟩ := mem_filter.mp hmem
      have hkeyed := hB.keyed_row (find_row hrow)
      simp only [Bool.and_eq_true, decide_eq_true_eq] at hmatch
      exact ⟨hkeyed.plain, by rw [hkeyed.key, hmatch.1.2]⟩
    · rintro a ⟨⟩
  · split
    · rename_i existing
      obtain ⟨hplain, hkey⟩ := hfound existing rfl
      exact safe_register data true hb hplain hkey t
    · exact safe_storeAndRegister hb (hU logical data hvalid) t

/-! ## calls -/

/-- what is known of a call that has returned -/
def Returned (S : Service) (U : Bytes → Prop) : Call → Reply → World → Prop
  | .upload req, .uploaded (.ok res), w => ∃ logical data, validateAndMaterialize S req = .ok (logical, data) ∧
      U data ∧ res.artifact ∈ w.made ∧ res.artifact.contentHash = S.sha data ∧ res.artifact.size = data.length
  | _, _, _ => True

def uploadedBy (t : Th) : Option Artifact :=
  match t.what, t.result with
  | .upload _, some (.uploaded (.ok res)) => some res.artifact
  | _, _ => none

theorem uploadedBy_eq {t : Th} (h : uploadedBy t = some a) :
    ∃ req res, t.what = .upload req ∧ t.result = some (.uploaded (.ok res)) ∧ res.artifact = a := by
  unfold uploadedBy at h
  split at h
  · rename_i req res hw hr
    cases h
    exact ⟨req, res, hw, hr, rfl⟩
  · cases h

/-- the bytes of an upload are among `U` -/
def Uploads (S : Service) (U : Bytes → Prop) : Act Call Env → Prop
  | .spawn _ (.upload req) => ∀ logical data, validateAndMaterialize S req = .ok (logical, data) → U data
  | _ => True

theorem returned_grows {c : Call} {r : Reply} (hm : ∀ x ∈ w.made, x ∈ m.made) (h : Returned S U c r w) :
    Returned S U c r m := by
  unfold Returned at h ⊢
  split
  · obtain ⟨logical, data, hvalid, hU, hmade, hrest⟩ := h
    exact ⟨logical, data, hvalid, hU, hm _ hmade, hrest⟩
  · trivial

theorem safe_body {c : Call} {i : Nat} (hU : Uploads S U (.spawn i c)) (s : World) :
    (body S c).Safe (exec S) (Base S U) Grows (fun c t _ => Proper S U t c) Named (Returned S U c) s := by
  cases c with
  | upload req =>
    refine safe_bind (M := fun r w => Returned S U (.upload req) (.uploaded r) w) ?_ fun r t hr => hr
    refine safe_bind (safe_uploadPipeline hU s) fun r t hr => ?_
    have hafter := tidy_afterUpload (S := S) (U := U) r t
    cases r with
    | error err => exact safe_bind hafter fun _ _ _ => trivial
    | ok res =>
      obtain ⟨logical, data, hvalid, hmade⟩ := hr res rfl
      obtain ⟨hmem, hrest⟩ := hmade res rfl
      exact safe_bind (safe_made hafter hmem) fun _ _ h => ⟨logical, data, hvalid, hU _ _ hvalid, h.2, hrest⟩
  | delete id =>
    exact safe_bind (tidy_uses (uses_delete (fun _ hc => hc) id) s) fun _ _ _ => trivial
  | restore id =>
    exact safe_bind (tidy_uses (uses_restore (fun _ hc => hc) id) s) fun _ _ _ => trivial
  | purge id => exact safe_bind (tidy_purge id s) fun _ _ _ => trivial
  | rollback lineageID version =>
    exact safe_bind (tidy_uses (uses_rollback (fun _ hc => hc) lineageID version) s) fun _ _ _ => trivial
  | setLegalHold id hold => exact safe_bind (tidy_setLegalHold id hold s) fun _ _ _ => trivial
  | updateRetention id policy => exact safe_bind (tidy_updateRetention id policy s) fun _ _ _ => trivial
  | runOnce => exact safe_bind (tidy_runOnce s) fun _ _ _ => trivial
  | sweepOrphans maxPerBucket pages =>
    exact safe_bind (tidy_uses (uses_sweepOrphans (fun _ hc => hc) maxPerBucket pages) s) fun _ _ _ => trivial

/-! ## runs -/

abbrev Records (S : Service) (U : Bytes → Prop) (sys : Sys World Th) : Prop :=
  SafeSys (exec S) (Base S U) (fun _ => Grows) (fun _ c t _ => Proper S U t c) (fun _ => Named)
    (Returned S U) sys

theorem records_next (sys : Sys World Th) (l : Act Call Env) (sys' : Sys World Th)
    (hi : Records S U sys) (hc : Uploads S U l ∧ Guard (fun _ => Named) sys l)
    (hn : (calls S).next sys l = some sys') : Records S U sys' := by
  refine safe_next (D := fun sys l => Uploads S U l ∧ Guard (fun _ => Named) sys l) (fun _ _ _ _ h => h)
    (fun _ _ _ _ _ h h' x hx => h' x (h x hx)) (fun sys i c hD _ => safe_body hD.1 sys.shared)
    (fun sys i e t c hD hp hnext => hD.2 t c hp hnext) ?_ sys l sys' hi hc hn
  intro sys i e t c a m _ _ _ he _ j u _ _
  have hgrows : ∀ x ∈ sys.shared.made, x ∈ m.made := fun x hx => made_mono he hx
  exact ⟨fun r hr => returned_grows hgrows hr, fun _ _ => hgrows⟩

theorem Records.uploaded {sys : Sys World Th} (h : Records S U sys) {i : Nat} {t : Th} (hp : sys.pool i = some t)
    (ha : uploadedBy t = some a) :
    ∃ req logical data, t.what = .upload req ∧ validateAndMaterialize S req = .ok (logical, data) ∧ U data ∧
      a ∈ sys.shared.made ∧ a.contentHash = S.sha data ∧ a.size = data.length := by
  obtain ⟨req, res, hw, hr, rfl⟩ := uploadedBy_eq ha
  have hreturned := safe_result h hp hr
  rw [hw] at hreturned
  obtain ⟨logical, data, hrest⟩ := hreturned
  exact ⟨req, logical, data, hw, hrest⟩

section
variable {run : List (Act Call Env)} {sys : Sys World Th} (h0 : Start S U w) (hU : ∀ l ∈ run, Uploads S U l)
include h0 hU

theorem records_inv : Lts.Along (calls S).next (fun sys _ => Records S U sys) (idle w) run :=
  along_inv records_next (inv_idle h0.base)
    (along_and (along_of_forall hU _) (new_along h0.used run))

section
variable (hr : Lts.run (calls S).next (idle w) run = some sys)
include hr

/-- **In every state of an interleaving the base holds**, and a call that has returned said what is known of it. -/
theorem records_run : Records S U sys :=
  run_inv records_next (inv_idle h0.base)
    (along_and (along_of_forall hU _) (new_along h0.used run)) hr

theorem start_run : Start S U sys.shared :=
  ⟨(records_run h0 hU hr).shared, used_run h0.used hr⟩

/-- **The accesses of every interleaving are proper.** -/
theorem records_along :
    Lts.Along (calls S).next (Guard fun _ w c => Base S U w ∧ Proper S U w c) (idle w) run := by
  refine along_step (fun sys l sys' hc hn => ?_) (along_and (records_inv h0 hU) (new_along h0.used run)) hr
  cases l with
  | spawn i c => trivial
  | step i e =>
    intro t c hp hnext
    obtain ⟨t', u, m, hp', hs, -⟩ := next_step hn
    cases hp.symm.trans hp'
    obtain ⟨c', k, a, hcode, he, -⟩ := prog_step hs
    cases hnext.symm.trans (next_of_code hcode)
    obtain ⟨-, hproper, -⟩ := safe_step (fun _ _ _ _ h => h) hc.1 hp hcode (hc.2 t _ hp hnext) he
    exact ⟨hc.1.shared, hproper⟩

end

end

end

end Storage
