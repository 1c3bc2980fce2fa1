import Cpip.Storage.Download
import Cpip.Storage.Watch

/-!
# Storage: a soft delete is undone

`Delete` of an uploaded artifact, then any calls, then `Restore`.

* `wp_delete`, `wp_restore`  what the two do alone;
* `undelete`  **the artifact is restored, and it downloads with its original bytes**, unless its object is taken.
-/

namespace Storage

open Pool Code

section
variable {S : Service} {U : Bytes → Prop} {w : World} {id : String}

/-! ## the calls alone -/

theorem base_alone {ρ : Type} {x : Op ρ} (hx : x.Uses Cmd.Free) (hB : Base S U w) :
    x.wp (exec S) (fun _ => Base S U) w :=
  wp_uses hx (fun _ hc _ _ _ _ hB he => base_exec hB (proper_free hc) he) hB

theorem wp_delete : (delete id).wp (exec S) (fun r m => r = .ok () →
    (∃ a, m.store.find id = some a ∧ a.state = .deleted) ∧ ∃ store, m = { w with store }) w := by
  rintro e r m ⟨⟩
  dsimp only [Code.bind]
  split
  · rintro ⟨⟩
  rename_i a ha
  have hrow := MemoryStore.get_ok ha
  have haid : a.id = id := find_id hrow
  subst haid
  split
  · rintro ⟨⟩
  split
  · rename_i hdel
    exact fun _ => ⟨⟨a, hrow, hdel⟩, w.store, rfl⟩
  -- the last access, from any records
  have hlast : ∀ store, (access (.updateState a.id .deleting .deleted)).wp (exec S) (fun r m => r = .ok () →
      (∃ a', m.store.find a.id = some a' ∧ a'.state = .deleted) ∧ ∃ store, m = { w with store })
      { w with store } := by
    rintro store e r m he rfl
    rcases exec_updateState he with ⟨⟨err, herr⟩, -⟩ | ⟨-, cur, store', -, -, -, rfl, hself, -⟩
    · cases herr
    · exact ⟨⟨_, hself, rfl⟩, store', rfl⟩
  unfold transitionToDeleted
  split
  · intro e r m he
    rcases exec_updateState he with ⟨⟨err, rfl⟩, -⟩ | ⟨rfl, cur, store, -, -, -, rfl, -⟩
    · rintro ⟨⟩
    · exact hlast store
  · exact hlast w.store

theorem wp_restore {a : Artifact} (ha : w.store.find id = some a) (hs : a.state = .deleted)
    (hstored : Stored S w a.bucket a.objectKey) :
    (restore id).wp (exec S) (fun r m => r = .ok () ∧ m.store.find id = some { a with state := .available } ∧
      ∃ store, m = { w with store }) w := by
  obtain ⟨p, hp, hsome⟩ := hstored
  rintro e r m ⟨⟩
  have hget : w.store.get id = .ok a := by
    unfold MemoryStore.get
    rw [ha]
  rw [hget]
  show wp _ _ (if a.state ≠ .deleted then _ else _) _
  rw [if_neg (not_not.mpr hs)]
  intro e r m he
  dsimp only [exec] at he
  rw [hp] at he
  cases he
  rw [hsome]
  intro e r m he
  rcases exec_updateState he with ⟨-, -, hno⟩ | ⟨rfl, cur, store, hcur, -, -, rfl, hself, -⟩
  · cases hno a ha hs
  · cases ha.symm.trans hcur
    exact ⟨rfl, hself, store, rfl⟩

theorem uses_restore_prompt : (restore id).Uses (Prompt S) := by
  refine uses_cmd (fun _ => ⟨{}, _, _, rfl⟩) fun r => ?_
  split
  · trivial
  split
  · trivial
  refine uses_cmd (fun s => ⟨{}, ?_⟩) fun r => ?_
  · dsimp only [exec]
    split
    · exact ⟨_, _, rfl⟩
    · exact ⟨_, _, rfl⟩
  · split
    · trivial
    · trivial
    · exact ⟨fun _ => ⟨{}, _, _, rfl⟩, fun _ => trivial⟩

/-! ## between the delete and the restore -/

def deletedWatch (art : Artifact) : Watch := ⟨art, .deleted, false⟩

/-- no call purges or restores the artifact, and every count of the references to its object spares it -/
def Undisputed (S : Service) (art : Artifact) (sys : Sys World Th) (l : Act Call Env) : Prop :=
  Allows (deletedWatch art) l ∧ Code.Guard (fun _ => Spared S (deletedWatch art)) sys l

instance (art : Artifact) (sys : Sys World Th) (l : Act Call Env) : Decidable (Undisputed S art sys l) := by
  unfold Undisputed
  infer_instance

theorem deleted_run {art : Artifact} {run : List (Act Call Env)} {sys : Sys World Th} (hD : Distinct S)
    (h0 : Start S U w) (hU : ∀ l ∈ run, Uploads S U l) (hwatch : Watched S (deletedWatch art) w)
    (hC : Lts.Along (calls S).next (Undisputed S art) (idle w) run)
    (hr : Lts.run (calls S).next (idle w) run = some sys) : Watched S (deletedWatch art) sys.shared := by
  have hG : Guarded S U (deletedWatch art) fun w c => (Base S U w ∧ Proper S U w c) ∧ Spared S (deletedWatch art) w c :=
    ⟨hD, .inr ⟨rfl, rfl⟩, fun _ _ h => h.1, fun _ _ _ h => h.2⟩
  refine watched_run hG (fun i t (_ : i ∉ []) hp => by cases hp) hwatch ?_ hr
  refine Lts.along_mono (fun sys l h => ⟨⟨h.1.1, aloof_nil sys l⟩, ?_⟩) _ _ (Lts.along_and hC (records_along h0 hU hr))
  exact guard_and h.2 h.1.2

section
variable {run₁ run₂ : List (Act Call Env)} {sys₁ sys₂ : Sys World Th} {i : Nat} {t : Th} {art : Artifact}
  {request : Request} {logical : String} {data : Bytes} {es : List Env}

/-- **A soft delete is undone** by its restore, with the original bytes, when nothing takes the object until then. -/
theorem undelete (hD : Distinct S) (hinj : Injective S U) (hU₁ : ∀ l ∈ run₁, Uploads S U l)
    (hU₂ : ∀ l ∈ run₂, Uploads S U l) (hr₁ : Lts.run (calls S).next (idle {}) run₁ = some sys₁)
    (hp : sys₁.pool i = some t) (hw : t.what = .upload request) (hart : uploadedBy t = some art)
    (hvalid : validateAndMaterialize S request = .ok (logical, data))
    (hstored : Stored S sys₁.shared art.bucket art.objectKey)
    (hdel : (delete art.id).run (exec S) sys₁.shared es = some (.ok (), w))
    (hC : Lts.Along (calls S).next (Undisputed S art) (idle w) run₂)
    (hr₂ : Lts.run (calls S).next (idle w) run₂ = some sys₂) :
    (∃ es r m, (restore art.id).run (exec S) sys₂.shared es = some (r, m)) ∧
    ∀ es r m, (restore art.id).run (exec S) sys₂.shared es = some (r, m) → r = .ok () ∧
      ∀ verify, (∃ es r m', (download S { artifactID := art.id, verify }).run (exec S) m es = some (r, m')) ∧
        ∀ es r m', (download S { artifactID := art.id, verify }).run (exec S) m es = some (r, m') →
          ∃ out, r = .ok out ∧ out.body = data ∧ out.size = data.length := by
  have hrec := records_run start_empty hU₁ hr₁
  have hstart := start_run start_empty hU₁ hr₁
  obtain ⟨-, -, -, -, -, -, hmade, -⟩ := hrec.uploaded hp hart
  -- the artifact after the delete
  obtain ⟨⟨a, ha, hdeleted⟩, store, hw'⟩ := wp_run wp_delete hdel rfl
  have hBw := wp_run (base_alone (U := U) (uses_delete (fun _ hc => hc) art.id) hrec.shared) hdel
  have hwatch : Watched S (deletedWatch art) w := by
    subst hw'
    exact ⟨hmade, ⟨a, ha, hdeleted, fun h => by cases h⟩, hstored⟩
  have hstart' : Start S U w := by
    subst hw'
    exact ⟨hBw, hstart.used⟩
  -- the artifact before the restore
  obtain ⟨hmade₂, ⟨b, hb, hbs, -⟩, hstored₂⟩ := deleted_run hD hstart' hU₂ hwatch hC hr₂
  change sys₂.shared.store.find art.id = some b at hb
  have hB₂ := (records_run hstart' hU₂ hr₂).shared
  obtain ⟨hbucket, hkey⟩ := Artifact.same_object (hB₂.core_row hb hmade₂ rfl)
  have hstoredb : Stored S sys₂.shared b.bucket b.objectKey := by
    rw [← hbucket, ← hkey]
    exact hstored₂
  refine ⟨exists_run uses_restore_prompt (fun _ hc => hc) _, fun es r m hrun => ?_⟩
  obtain ⟨hok, hrow, store', hm⟩ := wp_run (wp_restore hb hbs hstoredb) hrun
  have hBm := wp_run (base_alone (U := U) (uses_restore (fun _ hc => hc) art.id) hB₂) hrun
  refine ⟨hok, fun verify => ⟨exists_run uses_download (fun _ hc => hc) _, fun es r m' hload => ?_⟩⟩
  -- the object is the one that was uploaded
  have hmadem : art ∈ m.made := by
    rw [hm]
    exact hmade₂
  obtain ⟨p, hpb, hsome⟩ : Stored S m b.bucket b.objectKey := by
    rw [hm]
    exact hstoredb
  obtain ⟨o, ho⟩ := Option.isSome_iff_exists.mp hsome
  obtain ⟨hdata, hsha, hsize⟩ := hrec.object hinj hp hw hart hvalid hBm hmadem hrow ho
  have hsel : selected m { artifactID := art.id, verify } = .ok { b with state := .available } := by
    unfold selected MemoryStore.get
    rw [if_pos (hrec.shared.named art hmade), hrow]
  have hout := wp_run (wp_download (a := { b with state := .available }) hpb ho hdata hsel rfl hsha hsize
    fun r hr => by cases hr) hload
  refine ⟨_, hout, ?_, rfl⟩
  split <;> rfl

end

end

/-! ## runs -/

def meanwhileRun : List (Act Call Env) :=
  storeRun 0 "" "y" ++ dedupRun 1 "" "z" "y" ++ callRun 2 (.purge "z") 4

def sweepRun (i : Nat) (now : Int) (n : Nat) : List (Act Call Env) :=
  .spawn i (.sweepOrphans 0 1) :: .step i { now } :: List.replicate n (.step i {})

theorem undelete_meanwhileRun :
    Distinct sample ∧ Injective sample (· = [1, 2, 3]) ∧
    (∀ l ∈ storeRun 0 "" "x", Uploads sample (· = [1, 2, 3]) l) ∧
    (∀ l ∈ meanwhileRun, Uploads sample (· = [1, 2, 3]) l) ∧
    ∃ sys₁ ∈ sampleRun (storeRun 0 "" "x"),
      ∃ t ∈ sys₁.pool 0, t.what = .upload (sampleRequest "") ∧ ∃ art ∈ uploadedBy t,
        validateAndMaterialize sample (sampleRequest "") = .ok ("artifacts", [1, 2, 3]) ∧
        Stored sample sys₁.shared art.bucket art.objectKey ∧
        ∃ w, (delete art.id).run (exec sample) sys₁.shared [{}, {}, {}] = some (.ok (), w) ∧
        Lts.Along (calls sample).next (Undisputed sample art) (idle w)
          meanwhileRun ∧
        ∃ sys₂ ∈ Lts.run (calls sample).next (idle w) meanwhileRun,
          (∃ es r m, (restore art.id).run (exec sample) sys₂.shared es = some (r, m)) ∧
          ∀ es r m, (restore art.id).run (exec sample) sys₂.shared es = some (r, m) → r = .ok () ∧
            ∀ verify, (∃ es r m', (download sample { artifactID := art.id, verify }).run
                (exec sample) m es = some (r, m')) ∧
              ∀ es r m', (download sample { artifactID := art.id, verify }).run
                  (exec sample) m es = some (r, m') →
                ∃ out, r = .ok out ∧ out.body = [1, 2, 3] ∧ out.size = ([1, 2, 3] : Bytes).length := by
  have hU₂ : ∀ l ∈ meanwhileRun, Uploads sample (· = [1, 2, 3]) l := by
    refine fun l hl => uploads_sample fun i req heq => ?_
    subst heq
    have h : i = 0 ∧ req = sampleRequest "" ∨ i = 1 ∧ req = sampleRequest "" := by
      simpa [meanwhileRun, storeRun, dedupRun, callRun, List.replicate_succ] using hl
    rcases h with ⟨-, h⟩ | ⟨-, h⟩ <;> exact h
  have hend : ∃ sys₁ ∈ sampleRun (storeRun 0 "" "x"),
      ∃ t ∈ sys₁.pool 0, t.what = .upload (sampleRequest "") ∧ ∃ art ∈ uploadedBy t,
        (∃ p ∈ physicalBucket sample art.bucket,
          (sys₁.shared.objects.lookup (p, art.objectKey)).isSome = true) ∧
        ∃ r ∈ (delete art.id).run (exec sample) sys₁.shared [{}, {}, {}], r.1.toOption = some () ∧
          Lts.Along (calls sample).next (Undisputed sample art) (idle r.2)
            meanwhileRun ∧
          (Lts.run (calls sample).next (idle r.2) meanwhileRun).isSome = true := by
    decide +kernel
  obtain ⟨sys₁, hr₁, t, ht, hw, art, hart, hstored, ⟨r, w⟩, hdel, hok, hC, hsome⟩ := hend
  obtain ⟨sys₂, hr₂⟩ := Option.isSome_iff_exists.mp hsome
  obtain rfl : r = .ok () := by
    cases r with
    | error err => cases hok
    | ok u => rfl
  refine ⟨distinct_sample, injective_sample, uploads_storeRun, hU₂, sys₁, hr₁, t, ht, hw, art, hart, valid_sample,
    hstored, w, hdel, hC, sys₂, hr₂, ?_⟩
  exact undelete distinct_sample injective_sample uploads_storeRun hU₂ hr₁ ht hw hart valid_sample hstored hdel hC hr₂

/-- **The object of a deleted artifact is taken**, by the purge of a later artifact and by a sweep. -/
theorem deleted_loses_object : (Lts.Along (calls sample).next Code.Solo (idle {})
        (storeRun 0 "" "x" ++ callRun 1 (.delete "x") 3 ++ storeRun 2 "" "y" ++ callRun 3 (.purge "y") 5) ∧
      ∃ sys ∈ sampleRun
          (storeRun 0 "" "x" ++ callRun 1 (.delete "x") 3 ++ storeRun 2 "" "y" ++ callRun 3 (.purge "y") 5),
        (∀ i < 4, ∀ t ∈ sys.pool i, t.result.isSome = true) ∧
        (∃ a ∈ sys.shared.store.find "x", a.state = .deleted) ∧
        ∃ r ∈ (restore "x").run (exec sample) sys.shared [{}, {}], r.1.toOption = none) ∧
    Lts.Along (calls sample).next Code.Solo (idle {})
        (storeRun 0 "" "x" ++ callRun 1 (.delete "x") 3 ++ sweepRun 2 7200000000000 10) ∧
      ∃ sys ∈ sampleRun
          (storeRun 0 "" "x" ++ callRun 1 (.delete "x") 3 ++ sweepRun 2 7200000000000 10),
        (∀ i < 3, ∀ t ∈ sys.pool i, t.result.isSome = true) ∧
        (∃ a ∈ sys.shared.store.find "x", a.state = .deleted) ∧
        ∃ r ∈ (restore "x").run (exec sample) sys.shared [{}, {}], r.1.toOption = none := by
  refine ⟨⟨?_, by decide +kernel⟩, ?_, by decide +kernel⟩
  · exact along_bounded (n := 4) (D := Code.SoloBelow 4) (fun sys l hl hn => solo_below hl hn) (by decide)
      (by decide +kernel)
  · exact along_bounded (n := 3) (D := Code.SoloBelow 3) (fun sys l hl hn => solo_below hl hn) (by decide)
      (by decide +kernel)

end Storage
