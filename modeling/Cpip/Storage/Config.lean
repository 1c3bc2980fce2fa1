import Mathlib.Data.List.AList
import Mathlib.Data.List.Sort
import Mathlib.Data.Rat.Init
import Mathlib.Algebra.Order.Ring.Unbundled.Rat
import Cpip.Storage.Artifact

/-!
# Storage: configuration and policies

`storage/config` with its `Validate`, the routing of `storage/registry`, and the decisions of the compression and
retention managers.

* `decompress_compress`  **what is stored for some bytes is read back**.

The connection to the backend, multipart uploads, signed URLs and the timing of the cleanup loop are left out.
-/

namespace Storage

/-! ## configuration -/

/-- `config.Provider`; the empty one is `unset` -/
inductive Provider where
  | unset
  | minio
  | s3
  | filesystem
  | gcs
  | azure
  | other (name : String)

structure CompressionConfig where
  enabled : Bool := false
  algorithm : Algorithm := .unset
  level : Int := 0
  minSize : Int := 0
  minRatio : Rat := 0

structure RetentionConfig where
  defaultMode : RetentionMode := .unset
  defaultTTL : Int := 0
  maxVersions : Int := 0
  perType : AList fun _ : ArtType => Int := ∅

structure CleanupConfig where
  batchSize : Int := 0
  orphanGrace : Int := 0
  dryRun : Bool := false

structure Config where
  provider : Provider := .unset
  buckets : AList fun _ : String => String := ∅
  typeBuckets : AList fun _ : ArtType => String := ∅
  defaultBucket : String := ""
  compression : CompressionConfig := {}
  retention : RetentionConfig := {}
  cleanup : CleanupConfig := {}
  maxObjectSize : Int := 0

def hour : Int := 3600000000000

def Config.default : Config where
  provider := .minio
  buckets := (((∅ : AList fun _ : String => String).insert "archives" "cpip-archives").insert "snapshots"
    "cpip-snapshots" |>.insert "logs" "cpip-logs").insert "artifacts" "cpip-artifacts"
  typeBuckets := ((((((∅ : AList fun _ : ArtType => String).insert .sourceArchive "archives").insert
    .workspaceArchive "archives").insert .collaborationSnapshot "snapshots").insert .executionOutput "logs").insert
    .runtimeLog "logs").insert .executionLog "logs"
  defaultBucket := "artifacts"
  compression := { enabled := true, algorithm := .gzip, level := 0, minSize := 1024, minRatio := 1 / 20 }
  retention := { defaultMode := .retainForever, defaultTTL := 720 * hour, maxVersions := 10 }
  cleanup := { batchSize := 500, orphanGrace := hour, dryRun := false }
  maxObjectSize := 5368709120

def Provider.validate : Provider → Except String Provider
  | .unset => .ok Config.default.provider
  | .other name => .error ("storage/config: unknown provider: " ++ name)
  | p => .ok p

def CompressionConfig.validate (c : CompressionConfig) : Except String CompressionConfig :=
  let d := Config.default.compression
  if c.level < 0 ∨ 9 < c.level then .error "storage/config: compression.level must be in [0,9]"
  else if c.minRatio < 0 ∨ 1 < c.minRatio then .error "storage/config: compression.min_ratio must be in [0,1]"
  else .ok { c with
    algorithm := if c.algorithm = .unset then d.algorithm else c.algorithm
    minSize := if c.minSize < 0 then d.minSize else c.minSize }

def RetentionConfig.normalize (c : RetentionConfig) : RetentionConfig :=
  let d := Config.default.retention
  { c with
    defaultMode := if c.defaultMode = .unset then d.defaultMode else c.defaultMode
    defaultTTL := if c.defaultTTL ≤ 0 then d.defaultTTL else c.defaultTTL
    maxVersions := if c.maxVersions ≤ 0 then d.maxVersions else c.maxVersions }

def CleanupConfig.normalize (c : CleanupConfig) : CleanupConfig :=
  let d := Config.default.cleanup
  { c with
    batchSize := if c.batchSize ≤ 0 then d.batchSize else c.batchSize
    orphanGrace := if c.orphanGrace < 0 then d.orphanGrace else c.orphanGrace }

def Config.validate (c : Config) : Except String Config := do
  let d := Config.default
  let provider ← c.provider.validate
  let buckets := if c.buckets.entries.isEmpty then d.buckets else c.buckets
  let defaultBucket := if c.defaultBucket = "" then d.defaultBucket else c.defaultBucket
  if (buckets.lookup defaultBucket).isNone then
    throw ("storage/config: default_bucket " ++ defaultBucket ++ " is not in buckets map")
  let compression ← c.compression.validate
  if c.maxObjectSize < 0 then throw "storage/config: max_object_size must be >= 0"
  return { c with
    provider, buckets, defaultBucket, compression
    retention := c.retention.normalize
    cleanup := c.cleanup.normalize
    maxObjectSize := if c.maxObjectSize = 0 then d.maxObjectSize else c.maxObjectSize }

/-! ## the service -/

/-- the shipped codec: what it compresses it reads back -/
structure Codec where
  compress : Bytes → Int → Option Bytes
  decompress : Bytes → Option Bytes
  round : ∀ {src level out}, compress src level = some out → decompress out = some src

/-- the configuration, SHA-256, gzip, and whether a saving is below the minimal ratio, a float comparison -/
structure Service where
  cfg : Config
  sha : Bytes → Digest
  gzip : Codec
  poor : (orig stored : Nat) → Bool

section
variable (S : Service)

def physicalBucket (logical : String) : Option String := S.cfg.buckets.lookup logical

variable (t : ArtType)

def bucketForType : String := (S.cfg.typeBuckets.lookup t).getD S.cfg.defaultBucket

def logicalBuckets : List String := S.cfg.buckets.keys.insertionSort (· ≤ ·)

/-- different logical buckets are different buckets of the backend -/
def Distinct : Prop := ∀ b b' p, physicalBucket S b = some p → physicalBucket S b' = some p → b = b'

theorem distinct_of_nodup {S : Service} (h : (S.cfg.buckets.entries.map fun x => x.2).Nodup) : Distinct S := by
  intro b b' p hb hb'
  have hmem := AList.mem_lookup_iff.mp hb
  have hmem' := AList.mem_lookup_iff.mp hb'
  have heq := List.inj_on_of_nodup_map h hmem hmem' rfl
  cases heq
  rfl

/-! ## compression -/

def shouldCompress (size : Nat) : Bool :=
  let c := S.cfg.compression
  if !c.enabled then false
  else if c.algorithm = .unset ∨ c.algorithm = .none then false
  else if size < c.minSize then false
  else t.compressible

def compress (src : Bytes) : Except Err (Bytes × Algorithm) :=
  if !shouldCompress S t src.length then .ok (src, .none)
  else if S.cfg.compression.algorithm ≠ .gzip then .ok (src, .none)
  else
    match S.gzip.compress src S.cfg.compression.level with
    | none => .error .compressionFailed
    | some out => if S.poor src.length out.length then .ok (src, .none) else .ok (out, .gzip)

def decompress (alg : Algorithm) (src : Bytes) : Except Err Bytes :=
  match alg with
  | .unset => .ok src
  | .none => .ok src
  | .gzip =>
    match S.gzip.decompress src with
    | some out => .ok out
    | none => .error .compressionFailed
  | _ => .error .compressionFailed

def Plain (alg : Algorithm) : Prop := alg = .none ∨ alg = .gzip

theorem decompress_compress {t : ArtType} {src out : Bytes} {alg : Algorithm} (h : compress S t src = .ok (out, alg)) :
    Plain alg ∧ decompress S alg out = .ok src := by
  unfold compress at h
  split at h
  · cases h
    exact ⟨.inl rfl, rfl⟩
  split at h
  · cases h
    exact ⟨.inl rfl, rfl⟩
  split at h
  · cases h
  rename_i out' hout
  split at h
  · cases h
    exact ⟨.inl rfl, rfl⟩
  cases h
  refine ⟨.inr rfl, ?_⟩
  unfold decompress
  rw [S.gzip.round hout]

theorem plain_inj {alg alg' : Algorithm} (h : Plain alg) (h' : Plain alg')
    (heq : normalizeExt (extFor alg) = normalizeExt (extFor alg')) : alg = alg' := by
  rcases h with rfl | rfl
  · rcases h' with rfl | rfl
    · rfl
    · exact absurd heq (by decide)
  · rcases h' with rfl | rfl
    · exact absurd heq (by decide)
    · rfl

/-! ## retention -/

def ttlForType : Int :=
  match S.cfg.retention.perType.lookup t with
  | some d => if 0 < d then d else S.cfg.retention.defaultTTL
  | none => S.cfg.retention.defaultTTL

variable (requested : RetentionPolicy)

def resolveMode : RetentionMode :=
  if requested.mode = .unset then S.cfg.retention.defaultMode else requested.mode

def resolve (now : Int) : RetentionPolicy :=
  let p := { requested with mode := resolveMode S requested }
  match p.mode with
  | .retainUntil => if p.expireAt = none then { p with expireAt := some (now + ttlForType S t) } else p
  | .retainVersions => if p.maxVersions ≤ 0 then { p with maxVersions := S.cfg.retention.maxVersions } else p
  | .retainForever => { p with expireAt := none }
  | _ => p

theorem legalHold_resolve (now : Int) :
    (resolve S t requested now).legalHold = requested.legalHold := by
  unfold resolve
  dsimp only
  split
  · split <;> rfl
  · split <;> rfl
  · rfl
  · rfl

inductive Action where
  | keep
  | archive
  | expire
  | hold

def evaluate (a : Artifact) (now : Int) : Action :=
  if a.retention.legalHold then .hold
  else if !a.isExpired now then .keep
  else if a.retention.archive ∧ a.state ≠ .archived then .archive
  else .expire

def maxVersions (p : RetentionPolicy) : Int :=
  if p.mode ≠ .retainVersions then 0
  else if 0 < p.maxVersions then p.maxVersions
  else S.cfg.retention.maxVersions

def pruneVictims (lineage : List Artifact) (cap : Int) : List Artifact :=
  if cap ≤ 0 ∨ lineage.length ≤ cap then []
  else (lineage.take (lineage.length - cap.toNat)).filter fun v =>
    !(v.isLatest || v.retention.legalHold || v.state = .deleted)

theorem mem_pruneVictims {lineage : List Artifact} {cap : Int} {v : Artifact} (h : v ∈ pruneVictims lineage cap) :
    v ∈ lineage ∧ v.isLatest = false ∧ v.retention.legalHold = false ∧ v.state ≠ .deleted := by
  unfold pruneVictims at h
  split at h
  · cases h
  obtain ⟨hmem, hkeep⟩ := List.mem_filter.mp h
  refine ⟨List.mem_of_mem_take hmem, ?_⟩
  simpa only [Bool.not_or, Bool.and_eq_true, Bool.not_eq_true', decide_eq_false_iff_not, and_assoc] using hkeep

end

theorem validate_default : Config.default.validate = .ok Config.default := by
  have hcompression : Config.default.compression.validate = .ok Config.default.compression := by
    unfold CompressionConfig.validate
    rw [if_neg (by decide +kernel), if_neg (by decide +kernel)]
    rfl
  unfold Config.validate
  rw [hcompression]
  rfl

/-- a service that hashes everything to one digest and compresses nothing, to evaluate runs with one object -/
def sampleService (cfg : Config) : Service where
  cfg
  sha _ := ⟨String.ofList (List.replicate 64 '0'), by rw [String.toList_ofList, List.length_replicate],
    fun c hc => by rw [String.toList_ofList] at hc; rw [List.eq_of_mem_replicate hc]; decide⟩
  gzip := { compress := fun _ _ => none, decompress := fun _ => none, round := fun h => by cases h }
  poor _ _ := false

abbrev sample : Service := sampleService .default

end Storage
