import Mathlib.Data.List.Basic
import Mathlib.Tactic.Common

/-!
# Storage: artifacts

The domain of `storage/artifacts` and the content addressing of `storage/content`.

* `objectKey_inj`  **keys are equal only for equal hashes and equal suffixes**.

Owner, job, room, document, language, content type, free metadata, statistics and time stamps are left out.
-/

namespace Storage

/-! ## the lifecycle -/

inductive State where
  | pending
  | uploading
  | available
  | archived
  | expired
  | deleting
  | deleted
  | corrupted
deriving DecidableEq

def transitions : State → List State
  | .pending => [.uploading, .deleting, .deleted]
  | .uploading => [.available, .corrupted, .deleting, .deleted]
  | .available => [.archived, .expired, .deleting, .corrupted]
  | .archived => [.available, .expired, .deleting]
  | .expired => [.deleting, .archived, .available]
  | .deleting => [.deleted]
  | .deleted => [.available]
  | .corrupted => [.deleting, .deleted, .uploading]

def canTransition (src dst : State) : Bool := src = dst || dst ∈ transitions src

def State.serveable : State → Bool
  | .available => true
  | .archived => true
  | _ => false

/-- every state but `Deleted` may move to `Deleting` -/
theorem canTransition_deleting {s : State} (h : s ≠ .deleted) : canTransition s .deleting = true := by
  cases s with
  | deleted => exact absurd rfl h
  | _ => rfl

/-! ## types and policies -/

inductive ArtType where
  | executionLog
  | compiledBinary
  | executionOutput
  | collaborationSnapshot
  | workspaceArchive
  | sourceArchive
  | uploadedFile
  | template
  | runtimeLog
  | debugBundle
  | aiArtifact
  | other (name : String)
deriving DecidableEq

def ArtType.valid : ArtType → Bool
  | .other _ => false
  | _ => true

def ArtType.compressible : ArtType → Bool
  | .compiledBinary => false
  | .uploadedFile => false
  | _ => true

/-- `artifacts.Algorithm`; the empty one is `unset` -/
inductive Algorithm where
  | unset
  | none
  | gzip
  | zstd
  | lz4
  | other (name : String)
deriving DecidableEq

/-- `artifacts.RetentionMode`; the empty one is `unset` -/
inductive RetentionMode where
  | unset
  | retainForever
  | retainUntil
  | retainVersions
  | other (name : String)
deriving DecidableEq

structure RetentionPolicy where
  mode : RetentionMode := .unset
  expireAt : Option Int := none
  maxVersions : Int := 0
  legalHold : Bool := false
  archive : Bool := false
deriving DecidableEq

/-! ## content addressing -/

abbrev Bytes := List UInt8

/-- the characters of `hex.EncodeToString` -/
def hexDigits : List Char := "0123456789abcdef".toList

/-- `content.Digest`, without its `sha256:` -/
structure Digest where
  hex : String
  length_hex : hex.toList.length = 64
  digits_hex : ∀ c ∈ hex.toList, c ∈ hexDigits
deriving DecidableEq

theorem Digest.ext_toList {d d' : Digest} (h : d.hex.toList = d'.hex.toList) : d = d' := by
  obtain ⟨hex, _, _⟩ := d
  obtain ⟨hex', _, _⟩ := d'
  cases String.toList_inj.mp h
  rfl

def normalizeExt (suffix : String) : String :=
  if suffix = "" then ""
  else
    let dotted := if suffix.toList.head? = some '.' then suffix else "." ++ suffix
    String.ofList (dotted.toList.filter fun c => c ≠ '/' && c ≠ '\\')

/-- `content.ObjectKey`; a digest has no character that `path.Join` would clean away -/
def objectKey (d : Digest) (suffix : String) : String :=
  String.ofList ("cas/".toList ++ d.hex.toList.take 2 ++ '/' :: (d.hex.toList.drop 2).take 2 ++
    '/' :: d.hex.toList ++ (normalizeExt suffix).toList)

def isContentAddressed (key : String) : Bool := "cas/".toList.isPrefixOf key.toList

def extFor : Algorithm → String
  | .gzip => "gz"
  | .zstd => "zst"
  | .lz4 => "lz4"
  | _ => ""

theorem drop_objectKey (d : Digest) (suffix : String) :
    (objectKey d suffix).toList.drop 10 = d.hex.toList ++ (normalizeExt suffix).toList := by
  have hlen := d.length_hex
  unfold objectKey
  rw [String.toList_ofList]
  generalize hl : "cas/".toList ++ d.hex.toList.take 2 ++ '/' :: (d.hex.toList.drop 2).take 2 ++ ['/'] = l
  have hten : l.length = 10 := by
    rw [← hl]
    simp only [List.length_append, List.length_cons, List.length_nil, List.length_take, List.length_drop, hlen]
    decide
  have happ : "cas/".toList ++ d.hex.toList.take 2 ++ '/' :: (d.hex.toList.drop 2).take 2 ++
      '/' :: d.hex.toList ++ (normalizeExt suffix).toList = l ++ (d.hex.toList ++ (normalizeExt suffix).toList) := by
    rw [← hl]
    simp only [List.append_assoc, List.cons_append, List.nil_append]
  rw [happ, ← hten, List.drop_left]

/-- **Keys are equal only for equal hashes and equal suffixes.** -/
theorem objectKey_inj {d d' : Digest} {suffix suffix' : String} (h : objectKey d suffix = objectKey d' suffix') :
    d = d' ∧ normalizeExt suffix = normalizeExt suffix' := by
  have hdrop : (objectKey d suffix).toList.drop 10 = (objectKey d' suffix').toList.drop 10 := by rw [h]
  rw [drop_objectKey, drop_objectKey] at hdrop
  obtain ⟨hhex, hext⟩ := List.append_inj hdrop (d.length_hex.trans d'.length_hex.symm)
  exact ⟨Digest.ext_toList hhex, String.toList_inj.mp hext⟩

/-! ## the record -/

structure Artifact where
  id : String
  objectKey : String
  bucket : String
  contentHash : Digest
  size : Nat
  type : ArtType
  version : Int
  lineageID : String
  isLatest : Bool
  compression : Algorithm
  retention : RetentionPolicy
  state : State
deriving DecidableEq

def Artifact.isExpired (a : Artifact) (now : Int) : Bool :=
  if a.retention.legalHold then false
  else if a.retention.mode = .retainUntil then
    match a.retention.expireAt with
    | some t => t < now
    | none => false
  else false

inductive Err where
  | notFound
  | objectNotFound
  | alreadyExists
  | integrityMismatch
  | uploadFailed
  | downloadFailed
  | compressionFailed
  | objectTooLarge
  | invalidArtifact
  | illegalTransition
  | legalHold
  | versionNotFound
  | backendUnavailable
  | config
  | notImplemented

end Storage
