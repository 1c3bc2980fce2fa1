import Cpip.Storage.Served

/-!
# Storage: downloads

`storage/download` over the metadata store and the filesystem backend.

* `wp_download`  **what a download returns for a record whose object is there**;
* `download_uploaded`  **upload and download are inverse** for requests of the whole object.

A nil authorizer lets everything pass.  The body is read to its end.
-/

namespace Storage

open Pool Code List MemoryStore

/-! ## the pipeline -/

structure DownloadRequest where
  artifactID : String := ""
  lineageID : String := ""
  version : Int := 0
  range : Option ByteRange := none
  verify : Bool := false

structure Output where
  artifact : Artifact
  body : Bytes
  size : Nat

def lookup (req : DownloadRequest) : Op (Except Err Artifact) :=
  if req.artifactID ≠ "" then access (.get req.artifactID)
  else if req.lineageID ≠ "" ∧ 0 < req.version then access (.getVersion req.lineageID req.version)
  else if req.lineageID ≠ "" then access (.getLatest req.lineageID)
  else pure (.error .invalidArtifact)

section
variable (S : Service)

def downloadVerified (art : Artifact) : Op (Except Err Output) := do
  match ← access (.getObject art.bucket art.objectKey none) with
  | .error err => pure (.error err)
  | .ok raw =>
    match decompress S art.compression raw with
    | .error err => pure (.error err)
    | .ok data =>
      if S.sha data ≠ art.contentHash then pure (.error .integrityMismatch)
      else pure (.ok { artifact := art, body := data, size := data.length })

def downloadStreamed (art : Artifact) (range : Option ByteRange) : Op (Except Err Output) := do
  match ← access (.getObject art.bucket art.objectKey range) with
  | .error err => pure (.error err)
  | .ok raw =>
    match decompress S art.compression raw with
    | .error err => pure (.error err)
    | .ok body => pure (.ok { artifact := art, body, size := art.size })

def download (req : DownloadRequest) : Op (Except Err Output) := do
  match ← lookup req with
  | .error err => pure (.error err)
  | .ok art =>
    if !art.state.serveable then pure (.error .downloadFailed)
    else if req.range.isSome ∧ art.compression ≠ .unset ∧ art.compression ≠ .none then pure (.error .notImplemented)
    else if req.verify then downloadVerified S art
    else downloadStreamed S art req.range

end

def selected (w : World) (req : DownloadRequest) : Except Err Artifact :=
  if req.artifactID ≠ "" then w.store.get req.artifactID
  else if req.lineageID ≠ "" ∧ 0 < req.version then w.store.getVersion req.lineageID req.version
  else if req.lineageID ≠ "" then w.store.getLatest req.lineageID
  else .error .invalidArtifact

/-! ## ranges -/

def ByteRange.Valid (r : ByteRange) (data : Bytes) : Prop := 0 ≤ r.first ∧ r.first ≤ r.last ∧ r.first < data.length

def requested (data : Bytes) : Option ByteRange → Bytes
  | none => data
  | some r => (data.drop r.first.toNat).take (r.last - r.first + 1).toNat

def Whole (data : Bytes) : Option ByteRange → Prop
  | none => True
  | some r => r.first = 0 ∧ (data.length : Int) ≤ r.last + 1

theorem slice_valid {data : Bytes} {r : ByteRange} (h : r.Valid data) :
    slice data r = .ok (requested data (some r)) := by
  obtain ⟨h0, hle, hlt⟩ := h
  unfold slice requested
  dsimp only
  by_cases hlast : (data.length : Int) ≤ r.last
  · rw [if_pos hlast, if_neg (by omega)]
    -- the end of the range is cut to the end of the bytes
    congr 1
    rw [take_of_length_le (by rw [length_drop]; omega), take_of_length_le (by rw [length_drop]; omega)]
  · rw [if_neg hlast, if_neg (by omega)]

theorem requested_whole {data : Bytes} {range : Option ByteRange} (h : Whole data range) :
    requested data range = data := by
  cases range with
  | none => rfl
  | some r =>
    obtain ⟨hfirst, hlast⟩ := h
    show (data.drop r.first.toNat).take (r.last - r.first + 1).toNat = data
    rw [hfirst, Int.toNat_zero, drop_zero]
    exact take_of_length_le (by omega)

/-! ## what a download returns -/

section
variable {S : Service} {w : World} {req : DownloadRequest}

def Prompt (S : Service) (c : Cmd) : Prop := ∀ s, ∃ e a m, exec S c s e = some (a, m)

theorem prompt_getObject (bucket key : String) (range : Option ByteRange) : Prompt S (.getObject bucket key range) := by
  intro s
  refine ⟨{}, ?_⟩
  dsimp only [exec]
  split
  · exact ⟨_, _, rfl⟩
  split
  · exact ⟨_, _, rfl⟩
  split
  · exact ⟨_, _, rfl⟩
  · exact ⟨_, _, rfl⟩

theorem uses_download : (download S req).Uses (Prompt S) := by
  refine uses_bind ?_ fun r => ?_
  · unfold lookup
    split
    · exact ⟨fun _ => ⟨{}, _, _, rfl⟩, fun _ => trivial⟩
    split
    · exact ⟨fun _ => ⟨{}, _, _, rfl⟩, fun _ => trivial⟩
    split
    · exact ⟨fun _ => ⟨{}, _, _, rfl⟩, fun _ => trivial⟩
    · trivial
  · split
    · trivial
    split
    · trivial
    split
    · trivial
    split
    · refine uses_cmd (prompt_getObject _ _ _) fun r => ?_
      split
      · trivial
      split
      · trivial
      · split <;> trivial
    · refine uses_cmd (prompt_getObject _ _ _) fun r => ?_
      split
      · trivial
      · split <;> trivial

theorem wp_lookup : (lookup req).wp (exec S) (fun r m => r = selected w req ∧ m = w) w := by
  unfold lookup selected
  split
  · rintro e a m ⟨⟩
    exact ⟨rfl, rfl⟩
  split
  · rintro e a m ⟨⟩
    exact ⟨rfl, rfl⟩
  split
  · rintro e a m ⟨⟩
    exact ⟨rfl, rfl⟩
  · exact ⟨rfl, rfl⟩

section
variable {a : Artifact} {p : String} {o : Object} {data : Bytes} (hp : physicalBucket S a.bucket = some p)
  (ho : w.objects.lookup (p, a.objectKey) = some o) (hdata : decompress S a.compression o.data = .ok data)
include hp ho hdata

theorem wp_downloadVerified (hsha : S.sha data = a.contentHash) :
    (downloadVerified S a).wp (exec S) (fun r _ => r = .ok ⟨a, data, data.length⟩) w := by
  intro e r m he
  dsimp only [exec] at he
  rw [hp] at he
  dsimp only at he
  rw [ho] at he
  cases he
  show wp _ _ (match decompress S a.compression o.data with | .error err => _ | .ok data => _) _
  rw [hdata]
  dsimp only
  rw [if_neg (not_not.mpr hsha)]
  exact rfl

theorem wp_downloadStreamed {range : Option ByteRange} (hsize : a.size = data.length)
    (hrange : ∀ r, range = some r → r.Valid data ∧ a.compression = .none) :
    (downloadStreamed S a range).wp (exec S) (fun r _ => r = .ok ⟨a, requested data range, data.length⟩) w := by
  intro e r m he
  dsimp only [exec] at he
  rw [hp] at he
  dsimp only at he
  rw [ho] at he
  cases range with
  | none =>
    cases he
    show wp _ _ (match decompress S a.compression o.data with | .error err => _ | .ok data => _) _
    rw [hdata]
    exact congrArg (fun n => Except.ok (Output.mk a data n)) hsize
  | some x =>
    obtain ⟨hvalid, hplain⟩ := hrange x rfl
    rw [hplain] at hdata
    cases hdata
    cases he
    rw [slice_valid hvalid]
    show wp _ _ (match decompress S a.compression (requested o.data (some x)) with | .error err => _ | .ok data => _) _
    rw [hplain]
    exact congrArg (fun n => Except.ok (Output.mk a (requested o.data (some x)) n)) hsize

/-- **What a download returns**: the bytes, or an unverified range of them, and the size of all of them. -/
theorem wp_download (hsel : selected w req = .ok a) (hs : a.state.serveable = true) (hsha : S.sha data = a.contentHash)
    (hsize : a.size = data.length) (hrange : ∀ r, req.range = some r → r.Valid data ∧ a.compression = .none) :
    (download S req).wp (exec S)
      (fun r _ => r = .ok ⟨a, if req.verify then data else requested data req.range, data.length⟩) w := by
  refine wp_bind.mpr (wp_mono (fun r m h => ?_) wp_lookup)
  obtain ⟨rfl, rfl⟩ := h
  rw [hsel]
  have hcompressed : ¬ (req.range.isSome = true ∧ a.compression ≠ .unset ∧ a.compression ≠ .none) := by
    rintro ⟨hsome, -, hne⟩
    obtain ⟨r, hr⟩ := Option.isSome_iff_exists.mp hsome
    exact hne (hrange r hr).2
  dsimp only
  rw [hs, Bool.not_true, if_neg Bool.false_ne_true, if_neg hcompressed]
  split
  · exact wp_downloadVerified hp ho hdata hsha
  · exact wp_downloadStreamed hp ho hdata hsize hrange

end

/-! ## uploads and downloads -/

section
variable {U : Bytes → Prop} {run : List (Act Call Env)} {sys : Sys World Th}

def Injective (S : Service) (U : Bytes → Prop) : Prop := ∀ b b', U b → U b' → S.sha b = S.sha b' → b = b'

theorem selected_row {a : Artifact} (h : selected w req = .ok a) : w.store.find a.id = some a := by
  have hmem : ∀ {lineageID : String} {q : Artifact → Bool}, (w.store.lineage lineageID).find? q = some a →
      w.store.find a.id = some a := by
    intro lineageID q hq
    have hrow := mem_of_find?_eq_some hq
    rw [lineage, mem_insertionSort] at hrow
    exact find_row (mem_filter.mp hrow).1
  unfold selected at h
  split at h
  · have hrow := get_ok h
    rw [find_id hrow]
    exact hrow
  · split at h
    · unfold getVersion at h
      split at h
      · cases h
      rename_i b hb
      cases h
      exact hmem hb
    · split at h
      · unfold getLatest at h
        split at h
        · cases h
        rename_i b hb
        cases h
        exact hmem hb
      · cases h

theorem Records.object (hrec : Records S U sys) (hinj : Injective S U) {i : Nat} {t : Th} {art : Artifact}
    {request : Request} {logical : String} {data : Bytes} (hp : sys.pool i = some t) (hw : t.what = .upload request)
    (hart : uploadedBy t = some art) (hvalid : validateAndMaterialize S request = .ok (logical, data))
    {w : World} (hB : Base S U w) (hmade : art ∈ w.made) {a : Artifact}
    (ha : w.store.find art.id = some a) {p : String} {o : Object} (ho : w.objects.lookup (p, a.objectKey) = some o) :
    decompress S a.compression o.data = .ok data ∧ S.sha data = a.contentHash ∧ a.size = data.length := by
  obtain ⟨req', logical', data', hw', hvalid', hUd, -, hhash, hsize⟩ := hrec.uploaded hp hart
  cases hw.symm.trans hw'
  cases hvalid.symm.trans hvalid'
  have hcore := hB.core_row ha hmade rfl
  have hkeyed := hB.keyed_row ha
  obtain ⟨b, hUb, hb, hsha⟩ := hB.sound p a.objectKey o ho a.contentHash a.compression hkeyed.plain hkeyed.key
  have hhash' : S.sha data = a.contentHash := hhash.symm.trans (congrArg Artifact.contentHash hcore :)
  have heq : b = data := hinj b data hUb hUd (hsha.trans hhash'.symm)
  rw [heq] at hb
  exact ⟨hb, hhash', (congrArg Artifact.size hcore :).symm.trans hsize⟩

/-- **Upload and download are inverse** in a run of orderly calls, for a request of the whole object while the
artifact is served. -/
theorem download_uploaded (hD : Distinct S) (hinj : Injective S U) (hU : ∀ l ∈ run, Uploads S U l)
    (hC : Lts.Along (calls S).next Orderly (idle {}) run)
    (hr : Lts.run (calls S).next (idle {}) run = some sys) {i : Nat} {t : Th} {art a : Artifact}
    {request : Request} {logical : String} {data : Bytes} (hp : sys.pool i = some t) (hw : t.what = .upload request)
    (hart : uploadedBy t = some art) (hvalid : validateAndMaterialize S request = .ok (logical, data))
    (hsel : selected sys.shared req = .ok a) (hid : a.id = art.id) (hs : a.state.serveable = true)
    (hrange : ∀ r, req.range = some r → r.Valid data ∧ a.compression = .none) (hwhole : Whole data req.range) :
    (∃ es r m, (download S req).run (exec S) sys.shared es = some (r, m)) ∧
    ∀ es r m, (download S req).run (exec S) sys.shared es = some (r, m) →
      ∃ out, r = .ok out ∧ out.artifact = a ∧ out.body = requested data req.range ∧ out.size = out.body.length := by
  have hrec := records_run start_empty hU hr
  have hrow := selected_row hsel
  obtain ⟨p, hb, hsome⟩ := served_run hD hC hr a.id a hrow hs
  obtain ⟨o, ho⟩ := Option.isSome_iff_exists.mp hsome
  rw [hid] at hrow
  obtain ⟨-, -, -, -, -, -, hmade, -⟩ := hrec.uploaded hp hart
  obtain ⟨hdata, hsha, hsize⟩ := hrec.object hinj hp hw hart hvalid hrec.shared hmade hrow ho
  refine ⟨exists_run uses_download (fun c hc => hc) sys.shared, fun es r m hrun => ?_⟩
  have hout := wp_run (wp_download hb ho hdata hsel hs hsha hsize hrange) hrun
  have hbody : (if req.verify then data else requested data req.range) = requested data req.range := by
    split
    · exact (requested_whole hwhole).symm
    · rfl
  refine ⟨_, hout, rfl, hbody, ?_⟩
  rw [hbody, requested_whole hwhole]

end

end

/-! ## runs -/

def wholeDownload : DownloadRequest := { artifactID := "x", range := some ⟨0, 2⟩, verify := true }

theorem injective_sample : Injective sample (· = [1, 2, 3]) := by
  rintro b b' rfl rfl -
  rfl

theorem valid_sample : validateAndMaterialize sample (sampleRequest "") =
    .ok ("artifacts", [1, 2, 3]) := by
  rfl

theorem uploads_sample {l : Pool.Act Call Env} (h : ∀ i req, l = .spawn i (.upload req) → req = sampleRequest "") :
    Uploads sample (· = [1, 2, 3]) l := by
  unfold Uploads
  split
  · rename_i i req
    cases h i req rfl
    intro logical data hdata
    cases valid_sample.symm.trans hdata
    rfl
  · trivial

theorem uploads_storeRun : ∀ l ∈ storeRun 0 "" "x", Uploads sample (· = [1, 2, 3]) l := by
  refine fun l hl => uploads_sample fun i req heq => ?_
  subst heq
  have h : i = 0 ∧ req = sampleRequest "" := by simpa [storeRun] using hl
  exact h.2

theorem download_uploaded_storeRun :
    Distinct sample ∧ Injective sample (· = [1, 2, 3]) ∧
    (∀ l ∈ storeRun 0 "" "x", Uploads sample (· = [1, 2, 3]) l) ∧
    Lts.Along (calls sample).next Orderly (idle {}) (storeRun 0 "" "x") ∧
    ∃ sys ∈ sampleRun (storeRun 0 "" "x"),
      ∃ t ∈ sys.pool 0, t.what = .upload (sampleRequest "") ∧ ∃ art ∈ uploadedBy t,
        validateAndMaterialize sample (sampleRequest "") = .ok ("artifacts", [1, 2, 3]) ∧
        ∃ a, selected sys.shared wholeDownload = .ok a ∧ a.id = art.id ∧ a.state.serveable = true ∧
          (⟨0, 2⟩ : ByteRange).Valid [1, 2, 3] ∧ a.compression = .none ∧ Whole [1, 2, 3] wholeDownload.range ∧
          (∃ es r m, (download sample wholeDownload).run (exec sample) sys.shared es =
            some (r, m)) ∧
          ∀ es r m, (download sample wholeDownload).run (exec sample) sys.shared es =
              some (r, m) →
            ∃ out, r = .ok out ∧ out.artifact = a ∧ out.body = requested [1, 2, 3] wholeDownload.range ∧
              out.size = out.body.length := by
  have hC : Lts.Along (calls sample).next Orderly (idle {}) (storeRun 0 "" "x") := by
    refine along_bounded (n := 1) (D := fun sys l => Code.SoloBelow 1 sys l ∧ Code.Guard (fun _ => Counted) sys l)
      (fun sys l hl hn => ⟨solo_below hl.1 hn, hl.2⟩) (by decide) (by decide +kernel)
  have hend : ∃ sys ∈ sampleRun (storeRun 0 "" "x"),
      ∃ t ∈ sys.pool 0, t.what = .upload (sampleRequest "") ∧ ∃ art ∈ uploadedBy t,
        ∃ a ∈ (selected sys.shared wholeDownload).toOption, a.id = art.id ∧ a.state.serveable = true ∧
          a.compression = .none := by
    decide +kernel
  obtain ⟨sys, hr, t, ht, hw, art, hart, a, ha, hid, hs, hplain⟩ := hend
  have hsel : selected sys.shared wholeDownload = .ok a := by
    cases h : selected sys.shared wholeDownload with
    | error err =>
      rw [h] at ha
      cases ha
    | ok b =>
      rw [h] at ha
      cases ha
      rfl
  have hrange : (⟨0, 2⟩ : ByteRange).Valid [1, 2, 3] := ⟨by decide, by decide, by decide⟩
  have hwhole : Whole [1, 2, 3] wholeDownload.range := ⟨rfl, by decide⟩
  refine ⟨distinct_sample, injective_sample, uploads_storeRun, hC, sys, hr, t, ht, hw, art, hart, valid_sample, a,
    hsel, hid, hs, hrange, hplain, hwhole, ?_⟩
  refine download_uploaded distinct_sample injective_sample uploads_storeRun hC hr ht hw hart valid_sample hsel hid hs
    (fun r hr => ?_) hwhole
  cases hr
  exact ⟨hrange, hplain⟩

/-- **A ranged download is not what was asked for**, in its size or in its bytes. -/
theorem ranged_download_wrong : ∃ sys ∈ sampleRun (storeRun 0 "" "x"),
      (⟨0, 1⟩ : ByteRange).first < ([1, 2, 3] : Bytes).length ∧ requested [1, 2, 3] (some ⟨0, 1⟩) = [1, 2] ∧
      (∃ r ∈ (download sample { artifactID := "x", range := some ⟨0, 1⟩ }).run
          (exec sample) sys.shared [{}, {}],
        ∃ out ∈ r.1.toOption, out.artifact.compression = .none ∧ out.body = [1, 2] ∧ out.size = 3) ∧
      ∃ r ∈ (download sample { artifactID := "x", range := some ⟨0, 1⟩, verify := true }).run
          (exec sample) sys.shared [{}, {}],
        ∃ out ∈ r.1.toOption, out.artifact.compression = .none ∧ out.body = [1, 2, 3] ∧ out.size = 3 := by
  decide +kernel

end Storage
