import Cpip.Lib.Code
import Cpip.Storage.Memory

/-!
# Storage: the artifact manager and the reaper

`storage/upload`, `storage/manager`, `storage/versioning`, `storage/retention` and `storage/cleanup` over the
in-memory metadata store and one backend, with every access as a command of its own.

The backend does not fail, and a random identifier does not come up twice.  Reports, events, logs and metrics are
left out.  A sweep reads at most `pages` pages of each bucket, as when its context ends then.
-/

namespace Storage

open Code

/-! ## accesses -/

/-- an object of the backend; a zero `LastModified` is `none` -/
structure Object where
  data : Bytes
  lastModified : Option Int

/-- the metadata, the objects, and what no operation reads: identifiers, records added and removed, versions given -/
structure World where
  store : MemoryStore := {}
  objects : AList fun _ : String × String => Object := ∅
  used : List String := []
  made : List Artifact := []
  purged : List String := []
  assigned : List (String × Int) := []

structure ByteRange where
  first : Int
  last : Int
deriving DecidableEq

/-- the accesses; a count of references is made for a record that is purged or for a sweep -/
inductive Cmd where
  | clock
  | newID
  | ctxErr
  | get (id : String)
  | update (a : Artifact)
  | updateState (id : String) (expected next : State)
  | delete (id : String)
  | appendVersion (a : Artifact)
  | getLatest (lineageID : String)
  | getVersion (lineageID : String) (version : Int)
  | listLineage (lineageID : String)
  | setLatest (lineageID id : String)
  | findByContentHash (bucket : String) (hash : Digest)
  | countReferences (bucket key : String) (purged : Option String)
  | findExpired (now limit : Int)
  | putObject (bucket key : String) (data : Bytes)
  | getObject (bucket key : String) (range : Option ByteRange)
  | existsObject (bucket key : String)
  | deleteObject (bucket key : String)
  | listObjects (bucket after : String)
deriving DecidableEq

abbrev Cmd.Ans : Cmd → Type
  | .clock => Int
  | .newID => String
  | .ctxErr => Bool
  | .get _ => Except Err Artifact
  | .update _ => Except Err Unit
  | .updateState _ _ _ => Except Err Unit
  | .delete _ => Except Err Unit
  | .appendVersion _ => Except Err Artifact
  | .getLatest _ => Except Err Artifact
  | .getVersion _ _ => Except Err Artifact
  | .listLineage _ => List Artifact
  | .setLatest _ _ => Except Err Unit
  | .findByContentHash _ _ => Except Err Artifact
  | .countReferences _ _ _ => Nat
  | .findExpired _ _ => List Artifact
  | .putObject _ _ _ => Except Err Unit
  | .getObject _ _ _ => Except Err Bytes
  | .existsObject _ _ => Except Err Bool
  | .deleteObject _ _ => Except Err Unit
  | .listObjects _ _ => Except Err (List (String × Option Int) × Bool)

structure Env where
  now : Int := 0
  fresh : String := ""
  order : List String := []
  modified : Option Int := none
  done : Bool := false

/-- a part of the bytes, as the filesystem backend reads it -/
def slice (data : Bytes) (r : ByteRange) : Except Err Bytes :=
  let last := if (data.length : Int) ≤ r.last then (data.length : Int) - 1 else r.last
  if r.first < 0 ∨ last < r.first then .error .downloadFailed
  else .ok ((data.drop r.first.toNat).take (last - r.first + 1).toNat)

/-- the numbers of a lineage are forgotten with its last record -/
def World.forget (w : World) (lineageID : String) : World :=
  if w.store.rows.any (·.lineageID = lineageID) then w
  else { w with assigned := w.assigned.filter (·.1 ≠ lineageID) }

section
variable (S : Service)

/-- the objects after a key, a thousand of them, and whether there are more -/
def page (w : World) (bucket after : String) : List (String × Option Int) × Bool :=
  let all := w.objects.entries.filterMap fun x =>
    if x.1.1 = bucket ∧ after < x.1.2 then some (x.1.2, x.2.lastModified) else none
  let sorted := all.insertionSort fun x y => x.1 ≤ y.1
  (sorted.take 1000, 1000 < sorted.length)

@[simp]
def exec : Exec Cmd Cmd.Ans World Env
  | .clock, w, e => some (e.now, w)
  | .newID, w, e =>
    if e.fresh ∈ w.used ∨ e.fresh = "" then none else some (e.fresh, { w with used := e.fresh :: w.used })
  | .ctxErr, w, e => some (e.done, w)
  | .get id, w, _ => some (w.store.get id, w)
  | .update a, w, _ =>
    let r := w.store.update a
    some (r.1, { w with store := r.2 })
  | .updateState id expected next, w, _ =>
    let r := w.store.updateState id expected next
    some (r.1, { w with store := r.2 })
  | .delete id, w, _ =>
    let r := w.store.delete id
    match r.1 with
    | .ok () =>
      let lineageID := ((w.store.find id).map Artifact.lineageID).getD ""
      some (.ok (), World.forget { w with store := r.2, purged := id :: w.purged } lineageID)
    | .error err => some (.error err, { w with store := r.2 })
  | .appendVersion a, w, _ =>
    let r := w.store.appendVersion a
    match r.1 with
    | .ok a' => some (.ok a', { w with
        store := r.2
        made := w.made ++ [a']
        assigned := w.assigned ++ [(a'.lineageID, a'.version)] })
    | .error err => some (.error err, { w with store := r.2 })
  | .getLatest lineageID, w, _ => some (w.store.getLatest lineageID, w)
  | .getVersion lineageID version, w, _ => some (w.store.getVersion lineageID version, w)
  | .listLineage lineageID, w, _ => some (w.store.lineage lineageID, w)
  | .setLatest lineageID id, w, _ =>
    let r := w.store.setLatest lineageID id
    some (r.1, { w with store := r.2 })
  | .findByContentHash bucket hash, w, e =>
    let found := w.store.matching bucket hash
    if found = [] then some (.error .notFound, w)
    else (found.find? fun a => e.order = [a.id]).map fun a => (.ok a, w)
  | .countReferences bucket key _, w, _ => some (w.store.countReferences bucket key, w)
  | .findExpired now limit, w, e =>
    let found := w.store.expired now
    let out := e.order.filterMap fun id => found.find? (·.id = id)
    let bound := if 0 < limit then min limit.toNat found.length else found.length
    if e.order.Nodup ∧ out.length = e.order.length ∧ out.length = bound then some (out, w) else none
  | .putObject bucket key data, w, e =>
    match physicalBucket S bucket with
    | none => some (.error .config, w)
    | some p => some (.ok (), { w with objects := w.objects.insert (p, key) ⟨data, e.modified⟩ })
  | .getObject bucket key range, w, _ =>
    match physicalBucket S bucket with
    | none => some (.error .config, w)
    | some p =>
      match w.objects.lookup (p, key) with
      | none => some (.error .objectNotFound, w)
      | some o =>
        match range with
        | none => some (.ok o.data, w)
        | some r => some (slice o.data r, w)
  | .existsObject bucket key, w, _ =>
    match physicalBucket S bucket with
    | none => some (.error .config, w)
    | some p => some (.ok (w.objects.lookup (p, key)).isSome, w)
  | .deleteObject bucket key, w, _ =>
    match physicalBucket S bucket with
    | none => some (.error .config, w)
    | some p => some (.ok (), { w with objects := w.objects.erase (p, key) })
  | .listObjects bucket after, w, _ =>
    match physicalBucket S bucket with
    | none => some (.error .config, w)
    | some p => some (.ok (page w p after), w)

abbrev Op (ρ : Type) := Code Cmd Cmd.Ans ρ

abbrev access (c : Cmd) : Op c.Ans := cmd c

/-! ## the upload pipeline -/

/-- `upload.Request`; a reader that fails has no bytes -/
structure Request where
  data : Option Bytes := none
  reader : Option (Option Bytes) := none
  type : ArtType
  lineageID : String := ""
  bucket : String := ""
  retention : RetentionPolicy := {}
  forceAlgorithm : Option Algorithm := none
  disableDedup : Bool := false
  verifyReadback : Bool := false
deriving DecidableEq

structure Result where
  artifact : Artifact
  deduplicated : Bool

variable (req : Request)

def materialize : Except Err Bytes :=
  match req.data with
  | some data => .ok data
  | none =>
    match req.reader with
    | none => .error .invalidArtifact
    | some none => .error .uploadFailed
    | some (some body) =>
      let limit := if S.cfg.maxObjectSize ≤ 0 then 5368709120 else S.cfg.maxObjectSize
      let data := body.take (limit.toNat + 1)
      if limit < data.length then .error .objectTooLarge else .ok data

def logicalBucket : String := if req.bucket = "" then bucketForType S req.type else req.bucket

def validateAndMaterialize : Except Err (String × Bytes) :=
  if !req.type.valid then .error .invalidArtifact
  else if (physicalBucket S (logicalBucket S req)).isNone then .error .config
  else
    match materialize S req with
    | .error err => .error err
    | .ok data =>
      if 0 < S.cfg.maxObjectSize ∧ S.cfg.maxObjectSize < data.length then .error .objectTooLarge
      else if data = [] then .error .invalidArtifact
      else .ok (logicalBucket S req, data)

def compressRequest (data : Bytes) : Except Err (Bytes × Algorithm) :=
  if req.forceAlgorithm = some .none then .ok (data, .none) else compress S req.type data

def deduplicate (logical : String) (digest : Digest) : Op (Option Artifact) :=
  if req.disableDedup then pure none
  else do
    match ← access (.findByContentHash logical digest) with
    | .ok existing => pure (some existing)
    | .error _ => pure none

variable (logical key : String)

def verify (alg : Algorithm) (digest : Digest) : Op (Except Err Unit) := do
  match ← access (.getObject logical key none) with
  | .error err => pure (.error err)
  | .ok raw =>
    match decompress S alg raw with
    | .error err => pure (.error err)
    | .ok data => if S.sha data = digest then pure (.ok ()) else pure (.error .integrityMismatch)

def readback (alg : Algorithm) (digest : Digest) : Op (Except Err Unit) :=
  if req.verifyReadback then verify S logical key alg digest else pure (.ok ())

/-- `Resolve`, which looks at the clock only for an expiry -/
def resolvePolicy (t : ArtType) (requested : RetentionPolicy) : Op RetentionPolicy :=
  if resolveMode S requested = .retainUntil ∧ requested.expireAt = none then do
    let now ← access .clock
    pure (resolve S t requested now)
  else pure (resolve S t requested 0)

def lineageFor : Op String :=
  if req.lineageID = "" then access .newID else pure req.lineageID

def register (digest : Digest) (size : Nat) (alg : Algorithm)
    (deduplicated : Bool) : Op (Except Err Result) := do
  let lineageID ← lineageFor req
  let id ← access .newID
  let retention ← resolvePolicy S req.type req.retention
  match ← access (.appendVersion {
      id
      objectKey := key
      bucket := logical
      contentHash := digest
      size
      type := req.type
      version := 0
      lineageID
      isLatest := false
      compression := alg
      retention
      state := .available }) with
  | .error err => pure (.error err)
  | .ok artifact => pure (.ok { artifact, deduplicated })

def storeAndRegister (logical : String) (data : Bytes) : Op (Except Err Result) :=
  match compressRequest S req data with
  | .error err => pure (.error err)
  | .ok (stored, alg) => do
    match ← access (.putObject logical (objectKey (S.sha data) (extFor alg)) stored) with
    | .error _ => pure (.error .uploadFailed)
    | .ok () =>
      match ← readback S req logical (objectKey (S.sha data) (extFor alg)) alg (S.sha data) with
      | .error err => do
        let _ ← access (.deleteObject logical (objectKey (S.sha data) (extFor alg)))
        pure (.error err)
      | .ok () => register S req logical (objectKey (S.sha data) (extFor alg)) (S.sha data) data.length alg false

def uploadPipeline : Op (Except Err Result) :=
  match validateAndMaterialize S req with
  | .error err => pure (.error err)
  | .ok (logical, data) => do
    match ← deduplicate req logical (S.sha data) with
    | some existing =>
      register S req logical existing.objectKey (S.sha data) data.length existing.compression true
    | none => storeAndRegister S req logical data

/-! ## the artifact manager -/

variable (a : Artifact)

/-- the record is marked, so that readers stop serving it; a failure is ignored -/
def markDeleting : Op Unit :=
  if a.state ≠ .deleted ∧ a.state ≠ .deleting then do
    let _ ← access (.updateState a.id a.state .deleting)
    pure ()
  else pure ()

def dropObject : Op (Except Err Unit) := do
  let refs ← access (.countReferences a.bucket a.objectKey (some a.id))
  if refs ≤ 1 then
    match ← access (.deleteObject a.bucket a.objectKey) with
    | .error _ => pure (.error .backendUnavailable)
    | .ok () => pure (.ok ())
  else pure (.ok ())

variable (id : String)

def purge : Op (Except Err Unit) := do
  match ← access (.get id) with
  | .error err => pure (.error err)
  | .ok a =>
    if a.retention.legalHold then pure (.error .legalHold)
    else do
      markDeleting a
      match ← dropObject a with
      | .error err => pure (.error err)
      | .ok () => access (.delete id)

def pruneLineage (lineageID : String) (policy : RetentionPolicy) : Op Unit :=
  if maxVersions S policy ≤ 0 then pure ()
  else do
    let lineage ← access (.listLineage lineageID)
    each (fun v : Artifact => do
      let _ ← purge v.id
      pure ()) (pruneVictims lineage (maxVersions S policy))

def afterUpload (r : Except Err Result) : Op Unit :=
  match r with
  | .error _ => pure ()
  | .ok res =>
    if res.artifact.retention.mode = .retainVersions then
      pruneLineage S res.artifact.lineageID res.artifact.retention
    else pure ()

def upload : Op (Except Err Result) := do
  let r ← uploadPipeline S req
  afterUpload S r
  pure r

def transitionToDeleted : Op (Except Err Unit) :=
  if a.state ≠ .deleting then do
    match ← access (.updateState a.id a.state .deleting) with
    | .error err => pure (.error err)
    | .ok () => access (.updateState a.id .deleting .deleted)
  else access (.updateState a.id .deleting .deleted)

def delete : Op (Except Err Unit) := do
  match ← access (.get id) with
  | .error err => pure (.error err)
  | .ok a =>
    if a.retention.legalHold then pure (.error .legalHold)
    else if a.state = .deleted then pure (.ok ())
    else transitionToDeleted a

def restore : Op (Except Err Unit) := do
  match ← access (.get id) with
  | .error err => pure (.error err)
  | .ok a =>
    if a.state ≠ .deleted then pure (.error .illegalTransition)
    else do
      match ← access (.existsObject a.bucket a.objectKey) with
      | .error err => pure (.error err)
      | .ok false => pure (.error .objectNotFound)
      | .ok true => access (.updateState id .deleted .available)

def rollback (lineageID : String) (version : Int) : Op (Except Err Artifact) := do
  match ← access (.getVersion lineageID version) with
  | .error err => pure (.error err)
  | .ok target =>
    if !target.state.serveable then pure (.error .versionNotFound)
    else do
      match ← access (.setLatest lineageID target.id) with
      | .error err => pure (.error err)
      | .ok () => pure (.ok { target with isLatest := true })

def setLegalHold (hold : Bool) : Op (Except Err Unit) := do
  match ← access (.get id) with
  | .error err => pure (.error err)
  | .ok a => access (.update { a with retention := { a.retention with legalHold := hold } })

def updateRetention (policy : RetentionPolicy) : Op (Except Err Unit) := do
  match ← access (.get id) with
  | .error err => pure (.error err)
  | .ok a => do
    let retention ← resolvePolicy S a.type policy
    access (.update { a with retention })

/-! ## the reaper -/

def archive : Op Unit :=
  if S.cfg.cleanup.dryRun then pure ()
  else do
    let _ ← access (.updateState a.id a.state .archived)
    pure ()

def expire : Op Unit :=
  if S.cfg.cleanup.dryRun then pure ()
  else do
    let _ ← access (.updateState a.id a.state .expired)
    let _ ← purge a.id
    pure ()

def reap (now : Int) (a : Artifact) : Op Unit :=
  match evaluate a now with
  | .hold => pure ()
  | .keep => pure ()
  | .archive => archive S a
  | .expire => expire S a

def reapEach (now : Int) : List Artifact → Op Unit
  | [] => pure ()
  | a :: as => do
    if ← access .ctxErr then pure ()
    else do
      reap S now a
      reapEach now as

def runOnce : Op Unit := do
  let now ← access .clock
  let expired ← access (.findExpired now S.cfg.cleanup.batchSize)
  reapEach S now expired

def sweepObject (logical : String) (cutoff : Int) (o : String × Option Int) : Op Unit :=
  if !isContentAddressed o.1 then pure ()
  else if o.2.any (cutoff < ·) then pure ()
  else do
    let refs ← access (.countReferences logical o.1 none)
    if 0 < refs then pure ()
    else if S.cfg.cleanup.dryRun then pure ()
    else do
      let _ ← access (.deleteObject logical o.1)
      pure ()

def sweepBucket (logical : String) (cutoff maxPerBucket : Int) : Nat → String → Nat → Op (Except Err Unit)
  | 0, _, _ => pure (.ok ())
  | n + 1, marker, scanned => do
    if ← access .ctxErr then pure (.ok ())
    else do
      match ← access (.listObjects logical marker) with
      | .error err => pure (.error err)
      | .ok (objects, truncated) => do
        each (sweepObject S logical cutoff) objects
        let scanned := scanned + objects.length
        let marker := (objects.getLast?.map Prod.fst).getD marker
        if 0 < maxPerBucket ∧ maxPerBucket ≤ scanned then pure (.ok ())
        else if !truncated || objects.isEmpty then pure (.ok ())
        else sweepBucket logical cutoff maxPerBucket n marker scanned

def sweepBuckets (cutoff maxPerBucket : Int) (pages : Nat) : List String → Op (Except Err Unit)
  | [] => pure (.ok ())
  | logical :: rest => do
    match ← sweepBucket S logical cutoff maxPerBucket pages "" 0 with
    | .error err => pure (.error err)
    | .ok () => sweepBuckets cutoff maxPerBucket pages rest

def sweepOrphans (maxPerBucket : Int) (pages : Nat) : Op (Except Err Unit) := do
  let now ← access .clock
  sweepBuckets S (now - S.cfg.cleanup.orphanGrace) maxPerBucket pages (logicalBuckets S)

/-! ## calls -/

inductive Call where
  | upload (req : Request)
  | delete (id : String)
  | restore (id : String)
  | purge (id : String)
  | rollback (lineageID : String) (version : Int)
  | setLegalHold (id : String) (hold : Bool)
  | updateRetention (id : String) (policy : RetentionPolicy)
  | runOnce
  | sweepOrphans (maxPerBucket : Int) (pages : Nat)
deriving DecidableEq

inductive Reply where
  | uploaded (r : Except Err Result)
  | done (r : Except Err Unit)
  | rolledBack (r : Except Err Artifact)

def body : Call → Op Reply
  | .upload req => (upload S req).bind fun r => .ret (.uploaded r)
  | .delete id => (delete id).bind fun r => .ret (.done r)
  | .restore id => (restore id).bind fun r => .ret (.done r)
  | .purge id => (purge id).bind fun r => .ret (.done r)
  | .rollback lineageID version => (rollback lineageID version).bind fun r => .ret (.rolledBack r)
  | .setLegalHold id hold => (setLegalHold id hold).bind fun r => .ret (.done r)
  | .updateRetention id policy => (updateRetention S id policy).bind fun r => .ret (.done r)
  | .runOnce => (runOnce S).bind fun _ => .ret (.done (.ok ()))
  | .sweepOrphans maxPerBucket pages => (sweepOrphans S maxPerBucket pages).bind fun r => .ret (.done r)

abbrev Th := Thread Call Cmd Cmd.Ans Reply

abbrev calls : Pool.Prog Call World Th Env := prog (exec S) (body S)

end

end Storage
