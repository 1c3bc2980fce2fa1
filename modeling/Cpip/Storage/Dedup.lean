import Cpip.Lib.Repay
import Cpip.Storage.Served

/-!
# Storage: uploads and purges that interleave

The accesses of any number of `Upload` and `Purge` calls, interleaved.

* `purges_end`  a record that a purge has marked is removed by it;
* `uploads_stored`  **every artifact that was uploaded and not purged has its object**.
-/

namespace Storage

open Pool Code Lts

def Cmd.deletes : Cmd → Bool
  | .deleteObject _ _ => true
  | _ => false

def Cmd.appends : Cmd → Option Artifact
  | .appendVersion a => some a
  | _ => none

/-- the access may be made while a call is before the other one -/
def Compatible (c d : Cmd) : Prop :=
  (c.deletes = true → d.commits = false) ∧ ∀ a ∈ c.appends, d ≠ .deleteObject a.bucket a.objectKey

def Call.trades : Call → Bool
  | .upload _ => true
  | .purge _ => true
  | _ => false

/-- each access is compatible with those that the others make next, and each purge counts its own record -/
def Apart (sys : Sys World Th) : Act Call Env → Prop
  | .spawn _ c => c.trades = true
  | .step i _ => ∀ t c, sys.pool i = some t → t.next = some c → Counted sys.shared c ∧
      ∀ j u d, sys.pool j = some u → u.next = some d → Compatible c d

/-! ## what the others leave -/

section
variable {S : Service} {U : Bytes → Prop}

/-- what the others leave to a call before its access `c` -/
structure Undisturbed (S : Service) (c : Cmd) (s t : World) : Prop where
  grows : ∀ x ∈ s.made, x ∈ t.made
  served : ∀ id b, (∃ x ∈ s.made, x.id = id) → t.store.find id = some b → b.state.serveable = true →
    ∃ b', s.store.find id = some b' ∧ b'.state = b.state
  commit : c.commits = true → ∀ bucket key, Stored S s bucket key → Stored S t bucket key
  delete : ∀ bucket key, c = .deleteObject bucket key → Clear s bucket key → Clear t bucket key

theorem undisturbed_refl (c : Cmd) (s : World) : Undisturbed S c s s where
  grows _ h := h
  served _ b _ hb _ := ⟨b, hb, rfl⟩
  commit _ _ _ h := h
  delete _ _ _ h := h

theorem undisturbed_trans {c : Cmd} {s t u : World} (h : Undisturbed S c s t) (h' : Undisturbed S c t u) :
    Undisturbed S c s u where
  grows x hx := h'.grows x (h.grows x hx)
  served := by
    rintro id b ⟨x, hx, hid⟩ hb hs
    obtain ⟨b', hb', hstate⟩ := h'.served id b ⟨x, h.grows x hx, hid⟩ hb hs
    obtain ⟨b'', hb'', hstate'⟩ := h.served id b' ⟨x, hx, hid⟩ hb' (hstate ▸ hs)
    exact ⟨b'', hb'', hstate'.trans hstate⟩
  commit hc bucket key hk := h'.commit hc bucket key (h.commit hc bucket key hk)
  delete bucket key hc hk := h'.delete bucket key hc (h.delete bucket key hc hk)

theorem relies_undisturbed : Relies S (Undisturbed S) where
  known := by
    rintro c s t h id ⟨x, hx, hid⟩
    exact ⟨x, h.grows x hx, hid⟩
  commit _ _ _ hc h := h.commit hc
  mark := by
    intro a s t hknown ha h cur hcur hs
    obtain ⟨b, hb, hstate⟩ := h.served a.id cur hknown hcur hs
    cases ha.symm.trans hb
    exact hstate.symm
  count := by
    rintro bucket key id s t h ⟨hknown, hhidden⟩
    obtain ⟨x, hx, hid⟩ := hknown
    refine ⟨⟨x, h.grows x hx, hid⟩, fun b hb => ?_⟩
    rw [Bool.eq_false_iff]
    intro hs
    obtain ⟨b', hb', hstate⟩ := h.served id b ⟨x, hx, hid⟩ hb hs
    have hno := hhidden b' hb'
    rw [hstate, hs] at hno
    cases hno
  delete bucket key s t h := h.delete bucket key rfl

/-- **A calm access disturbs no call that it is compatible with.** -/
theorem undisturbed_exec {c d : Cmd} {r : c.Ans} {w m : World} {e : Env} (hD : Distinct S) (hP : Proper S U w c)
    (hcalm : c.Calm) (hcd : Compatible c d) (he : exec S c w e = some (r, m)) : Undisturbed S d w m := by
  refine ⟨fun x hx => made_mono he hx, fun id b hknown hb hs => ?_, fun hd bucket key h => ?_,
    fun bucket key hd h => ?_⟩
  · cases change_exec he id with
    | keep h => exact ⟨b, h ▸ hb, rfl⟩
    | head isLatest h h' =>
      cases hb.symm.trans h'
      exact ⟨_, h, rfl⟩
    | update hid h h' => exact hcalm.elim
    | state hid h hexp h' =>
      cases hb.symm.trans h'
      rw [show _ = false from hcalm] at hs
      cases hs
    | delete hid h h' hp => cases hb.symm.trans h'
    | append hid h h' =>
      obtain ⟨x, hx, hxid⟩ := hknown
      exact absurd (hxid.trans hid.symm) (hP.2.2.2 x hx)
  · refine stored_exec hD h ?_ he
    rintro rfl
    rw [hcd.1 rfl] at hd
    cases hd
  · intro id b hb hs hobj
    cases change_exec he id with
    | keep h' => exact h id b (h' ▸ hb) hs hobj
    | head isLatest hw h' =>
      cases hb.symm.trans h'
      exact h id _ hw hs hobj
    | update hid hw h' => exact hcalm.elim
    | state hid hw hexp h' =>
      cases hb.symm.trans h'
      rw [show _ = false from hcalm] at hs
      cases hs
    | delete hid hw h' hp => cases hb.symm.trans h'
    | append hid hw h' =>
      rename_i x
      cases hb.symm.trans h'
      obtain ⟨rfl, rfl⟩ := hobj
      exact hcd.2 x rfl hd

/-! ## every served record has its object -/

/-- every served record has its object, and the calls under way leave it -/
abbrev Trading (S : Service) (sys : Sys World Th) : Prop :=
  SafeSys (exec S) (Served S) (fun _ => Undisturbed S) (fun _ c t _ => Fit S t c ∧ c.Calm) (fun _ => Checked S)
    (fun _ _ _ => True) sys

theorem trading_next (hD : Distinct S) (sys : Sys World Th) (l : Act Call Env) (sys' : Sys World Th)
    (hi : Trading S sys) (hc : Apart sys l ∧ Guard (fun _ => Checked S) sys l)
    (hn : (calls S).next sys l = some sys') : Trading S sys' := by
  have hS : Settled S (fun _ => True) Cmd.Calm (Checked S) := ⟨hD, fun _ _ h => h.1, fun _ _ h => h.2, fun _ h => h⟩
  refine safe_next (D := fun sys l => Apart sys l ∧ Guard (fun _ => Checked S) sys l)
    (fun _ c s => undisturbed_refl c s) (fun _ _ _ _ _ h h' => undisturbed_trans h h') (fun sys i c hD _ => ?_)
    (fun sys i e t c hD hp hnext => hD.2 t c hp hnext) ?_ sys l sys' hi hc hn
  · cases c with
    | upload req => exact keeps_bind (serves_upload hS relies_undisturbed req) (fun _ => keeps_ret _) sys.shared
    | purge id => exact keeps_bind (serves_purge hS relies_undisturbed id) (fun _ => keeps_ret _) sys.shared
    | _ => cases hD.1
  · intro sys i e t c a m hc hp hnext he hG j u _ hu
    refine ⟨fun _ h => h, fun d hd => ?_⟩
    have hcd := (hc.1 t c hp hnext).2 j u d hu hd
    exact undisturbed_exec hD (hc.2 t c hp hnext).1.2 hG.2 hcd he

/-! ## every purge ends -/

/-- the access marks the record -/
def Cmd.Marks (c : Cmd) (id : String) : Prop :=
  (∃ expected next, c = .updateState id expected next) ∨ ∃ a, c = .update a ∧ a.id = id

/-- a record that is marked by the operation is removed by it -/
abbrev Finishes (S : Service) (U : Bytes → Prop) {ρ : Type} (x : Op ρ) : Prop :=
  x.Repays (exec S) (Base S U) Cmd.Marks fun c id => c = .delete id

def Cmd.Unmarked : Cmd → Prop
  | .update _ => False
  | .updateState _ _ _ => False
  | _ => True

theorem unmarked {c : Cmd} (h : c.Unmarked) (id : String) : ¬ c.Marks id := by
  rintro (⟨expected, next, rfl⟩ | ⟨a, rfl, -⟩)
  · exact h
  · exact h

theorem finishes_uses {ρ : Type} {x : Op ρ} (hx : x.Uses Cmd.Unmarked) : Finishes S U x :=
  repays_uses (uses_mono (fun _ => unmarked) hx)

variable (id : String)

def endPurge (a : Artifact) : Op (Except Err Unit) :=
  (dropObject a).bind fun r =>
    match r with
    | .error err => pure (.error err)
    | .ok () => access (.delete id)

theorem must_endPurge {a : Artifact} (ha : Keyed S a) :
    (endPurge id a).Must (exec S) (Base S U) (· = .delete id) := by
  have hlast : (access (.delete id)).Must (exec S) (Base S U) (· = .delete id) := Or.inl rfl
  refine Or.inr fun s e refs m _ _ => ?_
  by_cases hrefs : refs ≤ 1
  · show Must _ _ _ ((if refs ≤ 1 then _ else _ : Op (Except Err Unit)).bind _)
    rw [if_pos hrefs]
    refine Or.inr fun s e r m _ he => ?_
    obtain ⟨p, hp⟩ := Option.isSome_iff_exists.mp ha.bucket
    dsimp only [exec] at he
    rw [hp] at he
    cases he
    exact hlast
  · show Must _ _ _ ((if refs ≤ 1 then _ else _ : Op (Except Err Unit)).bind _)
    rw [if_neg hrefs]
    exact hlast

theorem uses_endPurge (a : Artifact) : (endPurge id a).Uses Cmd.Unmarked := by
  refine uses_bind (uses_cmd trivial fun refs => ?_) fun r => ?_
  · split
    · refine uses_cmd trivial fun r => ?_
      split <;> trivial
    · trivial
  · split
    · trivial
    · exact ⟨trivial, fun _ => trivial⟩

theorem finishes_purge : Finishes S U (purge id) := by
  refine repays_cmd fun s e r m hB he => ⟨fun x hx => absurd hx (unmarked (by trivial) x), ?_⟩
  cases he
  split
  · trivial
  rename_i a ha
  have hrow := MemoryStore.get_ok ha
  have hid : a.id = id := find_id hrow
  subst hid
  split
  · trivial
  have hend : Finishes S U (endPurge a.id a) := finishes_uses (uses_endPurge a.id a)
  show Repays _ _ _ _ ((markDeleting a).bind fun _ => endPurge a.id a)
  unfold markDeleting
  split
  · intro s' e' r' m' _ _
    refine ⟨fun x hx => ?_, hend⟩
    rcases hx with ⟨expected, next, heq⟩ | ⟨b, heq, -⟩
    · cases heq
      exact must_endPurge a.id (hB.keyed_row hrow)
    · cases heq
  · exact hend

theorem walk_unmarked : Walk (fun x => x.Uses Cmd.Unmarked) fun _ _ => True := by
  refine walk_uses fun c hc => ?_
  cases c with
  | update a | updateState id expected next => exact hc.elim
  | _ => trivial

theorem uses_uploadPipeline (req : Request) : (uploadPipeline S req).Uses Cmd.Unmarked := by
  have happend : ∀ a, (access (.appendVersion a)).Uses Cmd.Unmarked := fun _ => ⟨trivial, fun _ => trivial⟩
  refine walk_uploadPipeline walk_unmarked req happend fun logical data => ?_
  unfold storeAndRegister
  split
  · trivial
  refine uses_cmd trivial fun r => ?_
  split
  · trivial
  refine uses_bind (walk_readback walk_unmarked req _ _ _ _) fun r => ?_
  split
  · exact uses_cmd trivial fun _ => trivial
  · exact walk_register walk_unmarked req _ _ _ _ happend _ _

theorem walk_finishes : Walk (fun x => Finishes S U x) fun _ _ => True := by
  refine ⟨fun _ => trivial, repays_bind, fun hc hf => repays_cmd fun s e a m _ _ => ⟨fun x hx => ?_, hf a trivial⟩⟩
  rcases hx with ⟨expected, next, rfl⟩ | ⟨b, rfl, -⟩ <;> exact hc.elim

theorem finishes_body {c : Call} (hc : c.trades = true) : Finishes S U (body S c) := by
  cases c with
  | upload req =>
    refine repays_bind (repays_bind (finishes_uses (uses_uploadPipeline req)) fun r => ?_) fun _ => trivial
    exact repays_bind (walk_afterUpload walk_finishes (fun _ _ _ v _ _ => finishes_purge v.id) r) fun _ => trivial
  | purge id => exact repays_bind (finishes_purge id) fun _ => trivial
  | _ => cases hc

section
variable {run : List (Act Call Env)} {sys : Sys World Th}

def Usable (w : World) (id : String) : Prop := ∀ a, w.store.find id = some a → a.state = .available

theorem purges_end (hC : Lts.Along (calls S).next Apart (idle {}) run)
    (hr : Lts.run (calls S).next (idle {}) run = some sys)
    (hdone : ∀ i t, sys.pool i = some t → t.result.isSome = true) (id : String) : Usable sys.shared id := by
  have hU : ∀ l ∈ run, Uploads S (fun _ => True) l := fun l _ => uploads_true l
  have hguard := along_and (along_and hC (records_inv start_empty hU)) (records_along start_empty hU hr)
  refine repays_run (fun sys i c hD => finishes_body hD.1.1) (fun sys l hD => hD.1.2.shared) ?_ ?_ hguard hr hdone id
  · intro sys i e t c r m hD hp hnext he id
    refine ⟨fun hpay b hb => ?_, fun hmark hfine b hb => ?_⟩
    · subst hpay
      cases (find_delete he).symm.trans hb
    cases change_exec he id with
    | keep h => exact hfine b (h ▸ hb)
    | head isLatest h h' =>
      cases hb.symm.trans h'
      exact (hfine _ h :)
    | update hid h h' => exact absurd (.inr ⟨_, rfl, hid⟩) hmark
    | state hid h hexp h' =>
      subst hid
      exact absurd (.inl ⟨_, _, rfl⟩) hmark
    | delete hid h h' hp => cases hb.symm.trans h'
    | append hid h h' =>
      cases hb.symm.trans h'
      exact (hD.2 t _ hp hnext).2.2.1
  · intro id a ha
    cases ha

theorem counted_apart {l : Act Call Env} (h : Apart sys l) : Guard (fun _ => Counted) sys l := by
  cases l with
  | spawn i c => trivial
  | step i e => exact fun t c hp hc => (h t c hp hc).1

/-- **Every artifact that was uploaded and not purged has its object** once all calls have returned. -/
theorem uploads_stored (hD : Distinct S) (hC : Lts.Along (calls S).next Apart (idle {}) run)
    (hr : Lts.run (calls S).next (idle {}) run = some sys)
    (hdone : ∀ i t, sys.pool i = some t → t.result.isSome = true) {i : Nat} {t : Th} {a : Artifact}
    (hp : sys.pool i = some t) (ha : uploadedBy t = some a) :
    a.id ∈ sys.shared.purged ∨ Stored S sys.shared a.bucket a.objectKey := by
  have hU : ∀ l ∈ run, Uploads S (fun _ => True) l := fun l _ => uploads_true l
  have hrecords := records_run start_empty hU hr
  have hserved : Served S sys.shared := by
    have h0 : Served S {} := fun id a ha => by cases ha
    refine (run_inv (trading_next hD) (inv_idle h0) ?_ hr).shared
    refine along_mono (fun sys l h => ⟨h.1, ?_⟩) _ _ (along_and hC (records_along start_empty hU hr))
    exact guard_and h.2 (counted_apart h.1)
  -- the record that the upload has added is still there, or it was purged
  obtain ⟨-, -, -, -, -, -, hmade, -⟩ := hrecords.uploaded hp ha
  rcases hrecords.shared.kept a hmade with hpurged | hsome
  · exact .inl hpurged
  obtain ⟨b, hb⟩ := Option.isSome_iff_exists.mp hsome
  have hserve : b.state.serveable = true := by
    rw [purges_end hC hr hdone _ b hb]
    rfl
  have hstored := hserved _ b hb hserve
  obtain ⟨hbucket, hkey⟩ := Artifact.same_object (hrecords.shared.core_row hb hmade rfl)
  rw [← hbucket, ← hkey] at hstored
  exact .inr hstored

end

end

/-! ## runs -/

/-- `Apart`, as far as the calls below `n` go -/
def ApartBelow (n : Nat) (sys : Sys World Th) : Act Call Env → Prop
  | .spawn _ c => c.trades = true
  | .step i _ => ∀ t ∈ sys.pool i, ∀ c ∈ t.next, Counted sys.shared c ∧
      ∀ j < n, ∀ u ∈ sys.pool j, ∀ d ∈ u.next, Compatible c d

instance (c d : Cmd) : Decidable (Compatible c d) := by
  unfold Compatible
  infer_instance

instance (n : Nat) (sys : Sys World Th) (l : Act Call Env) : Decidable (ApartBelow n sys l) := by
  unfold ApartBelow
  split <;> infer_instance

def tradeRun : List (Act Call Env) :=
  storeRun 0 "" "x" ++ [.spawn 1 (.upload (sampleRequest "")), .step 1 { order := ["x"] }, .spawn 2 (.purge "x"),
    .step 2 {}, .step 1 { fresh := "y-lineage" }, .step 2 {}, .step 1 { fresh := "y" }, .step 1 {}, .step 2 {},
    .step 2 {}]

theorem uploads_stored_tradeRun : Distinct sample ∧
    Lts.Along (calls sample).next Apart (idle {}) tradeRun ∧
    ∃ sys ∈ sampleRun tradeRun,
      (∀ i t, sys.pool i = some t → t.result.isSome = true) ∧ sys.shared.store.find "x" = none ∧
      ∃ t ∈ sys.pool 1, ∃ a ∈ uploadedBy t, a.id = "y" ∧
        (a.id ∈ sys.shared.purged ∨ Stored sample sys.shared a.bucket a.objectKey) := by
  have hend : ∃ sys ∈ sampleRun tradeRun,
      (∀ i t, sys.pool i = some t → t.result.isSome = true) ∧ sys.shared.store.find "x" = none ∧
      ∃ t ∈ sys.pool 1, ∃ a ∈ uploadedBy t, a.id = "y" :=
    exists_below (n := 3) (by decide) (by decide +kernel)
  obtain ⟨sys, hr, hdone, hx, t, ht, a, ha, hid⟩ := hend
  refine ⟨distinct_sample, ?hC, sys, hr, hdone, hx, t, ht, a, ha, hid,
    uploads_stored distinct_sample ?hC hr hdone ht ha⟩
  refine along_bounded (n := 3) (D := ApartBelow 3) (fun sys l hl hn => ?_) (by decide) (by decide +kernel)
  cases l with
  | spawn i c => exact hl
  | step i e => exact fun t c hp hc => ⟨(hl t hp c hc).1, fun j u d hu hd => (hl t hp c hc).2 j (hn j u hu) u hu d hd⟩

/-- the artifact is purged between the lookup of another upload and its record -/
def lateRun : List (Act Call Env) :=
  storeRun 0 "" "x" ++ [.spawn 1 (.upload (sampleRequest "")), .step 1 { order := ["x"] }] ++
    callRun 2 (.purge "x") 5 ++ [.step 1 { fresh := "y-lineage" }, .step 1 { fresh := "y" }, .step 1 {}]

/-- two purges of one artifact: the second counts after the first has removed the record -/
def twiceRun : List (Act Call Env) :=
  storeRun 0 "" "x" ++ dedupRun 1 "" "y" "x" ++ [.spawn 2 (.purge "x"), .step 2 {}] ++ callRun 3 (.purge "x") 4 ++
    List.replicate 4 (.step 2 {})

/-- **An upload ends without its object** when a purge takes it before the record, and after two purges. -/
theorem upload_loses_object : (∃ sys ∈ sampleRun lateRun,
      (∀ i < 3, ∀ t ∈ sys.pool i, t.result.isSome = true) ∧ "y" ∉ sys.shared.purged ∧
      ∃ t ∈ sys.pool 1, ∃ a ∈ uploadedBy t, a.id = "y" ∧
        ∃ p ∈ physicalBucket sample a.bucket, sys.shared.objects.lookup (p, a.objectKey) = none) ∧
    ∃ sys ∈ sampleRun twiceRun,
      (∀ i < 4, ∀ t ∈ sys.pool i, t.result.isSome = true) ∧ "y" ∉ sys.shared.purged ∧
      ∃ t ∈ sys.pool 1, ∃ a ∈ uploadedBy t, a.id = "y" ∧
        ∃ p ∈ physicalBucket sample a.bucket, sys.shared.objects.lookup (p, a.objectKey) = none := by
  exact ⟨by decide +kernel, by decide +kernel⟩

end Storage
