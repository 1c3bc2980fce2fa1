import Mathlib.Data.Rat.Defs
import Cpip.Exec.Job

/-!
# Queue: messages, workers and configuration

The data of `internal/queue/types`, `internal/queue/registry` and `internal/queue/config`.

The JSON text of a message stands as the message it encodes.  `Message.origin` is a history
variable: the number of the `Schedule` call the message comes from; nothing branches on it.
Timestamps, the execution envelope, traces and statistics are left out: nothing modelled here
reads them.
-/

namespace Queue

/-! ## messages -/

inductive MessageState where
  | created
  | queued
  | claimed
  | acknowledged
  | completed
  | retry
  | deadLetter
  | archived
deriving DecidableEq

/-- the identifier of a stream entry, `ms-seq` -/
structure ID where
  ms : Int
  seq : Nat
deriving DecidableEq

/-- `types.Message`; `streamID` is `0-0`, which is never issued, until the message is read from a stream -/
structure Message where
  messageID : String := ""
  streamID : ID := ⟨0, 0⟩
  jobID : String := ""
  correlationID : String := ""
  requestID : String := ""
  userID : String := ""
  roomID : String := ""
  language : String := ""
  priority : Int := 0
  retryCount : Nat := 0
  maxRetries : Int := 0
  metadata : List (String × String) := []
  version : Nat := 0
  state : MessageState := .created
  workerID : String := ""
  origin : Nat := 0
deriving DecidableEq

def currentVersion : Nat := 1

/-- the field map of a stream entry: the data of a message, or no such data -/
inductive Fields where
  | data (m : Message)
  | malformed
deriving DecidableEq

def marshal (m : Message) : Fields :=
  .data (if m.version = 0 then { m with version := currentVersion } else m)

def unmarshal (id : ID) : Fields → Option Message
  | .data m => some { m with streamID := id }
  | .malformed => none

theorem unmarshal_marshal (id : ID) (m : Message) : unmarshal id (marshal m) = some { m with
        streamID := id
        version := if m.version = 0 then currentVersion else m.version } := by
  by_cases h : m.version = 0 <;> simp [marshal, unmarshal, h]

/-- the message of a job (`Manager.Schedule` and `Producer.Publish`); `origin` numbers the call -/
def Message.ofJob (origin : Nat) (j : Exec.Job) : Message where
  messageID := j.id
  jobID := j.id
  correlationID := j.correlationID
  requestID := j.requestID
  userID := j.userID
  roomID := j.roomID
  language := j.language
  priority := j.priority
  retryCount := j.retryCount
  maxRetries := j.maxRetries
  metadata := j.metadata
  version := currentVersion
  state := .queued
  origin := origin

/-! ## workers -/

inductive WorkerState where
  | starting
  | idle
  | reserved
  | executing
  | completed
  | failed
  | recovering
  | offline
deriving DecidableEq

def canTransitionWorker : WorkerState → WorkerState → Bool
  | .starting, t => t == .idle || t == .offline
  | .idle, t => t == .reserved || t == .offline || t == .recovering
  | .reserved, t => t == .executing || t == .idle || t == .failed || t == .offline
  | .executing, t => t == .completed || t == .failed || t == .offline
  | .completed, t => t == .idle || t == .offline
  | .failed, t => t == .recovering || t == .offline
  | .recovering, t => t == .idle || t == .offline
  | .offline, _ => false

structure Worker where
  id : String
  state : WorkerState := .starting
  currentJob : String := ""
  currentMsg : String := ""
  transitions : Nat := 1

abbrev Workers := String → Option Worker

def Workers.register (r : Workers) (id : String) : Option Workers :=
  match r id with
  | some _ => none
  | none => some (Function.update r id (some { id := id }))

def Workers.updateState (r : Workers) (id : String) (t : WorkerState) : Option Workers :=
  match r id with
  | none => none
  | some w =>
    if canTransitionWorker w.state t then
      some (Function.update r id (some { w with state := t, transitions := w.transitions + 1 }))
    else none

def Workers.updateCurrentJob (r : Workers) (id jobID msgID : String) : Option Workers :=
  (r id).map fun w => Function.update r id (some { w with currentJob := jobID, currentMsg := msgID })

/-! ## configuration -/

structure Streams where
  execution : String
  retry : String
  deadLetter : String
  group : String
deriving DecidableEq

structure Config where
  streams : Streams
  workerCount : Int
  maxWorkerCount : Int
  heartbeatInterval : Int
  heartbeatTimeout : Int
  heartbeatCheckInterval : Int
  visibilityTimeout : Int
  consumerBatchSize : Int
  consumerBlock : Int
  pendingCheckInterval : Int
  maxRetries : Int
  retryBaseDelay : Int
  retryMaxDelay : Int
  retryJitter : Rat
  deadLetterMaxLen : Int
  shutdownGrace : Int
deriving DecidableEq

def Config.default : Config where
  streams := ⟨"cpip:exec:stream", "cpip:exec:retry", "cpip:exec:dlq", "cpip-executors"⟩
  workerCount := 8
  maxWorkerCount := 64
  heartbeatInterval := 2000000000
  heartbeatTimeout := 10000000000
  heartbeatCheckInterval := 2000000000
  visibilityTimeout := 30000000000
  consumerBatchSize := 16
  consumerBlock := 2000000000
  pendingCheckInterval := 5000000000
  maxRetries := 3
  retryBaseDelay := 500000000
  retryMaxDelay := 30000000000
  retryJitter := 1 / 5
  deadLetterMaxLen := 10000
  shutdownGrace := 15000000000

def orName (v d : String) : String := if v = "" then d else v

def orPositive (v d : Int) : Int := if v ≤ 0 then d else v

def Config.validate (c : Config) : Except String Config :=
  let d := Config.default
  let workerCount := orPositive c.workerCount d.workerCount
  let maxWorkerCount := orPositive c.maxWorkerCount d.maxWorkerCount
  let heartbeatInterval := orPositive c.heartbeatInterval d.heartbeatInterval
  let heartbeatTimeout := orPositive c.heartbeatTimeout d.heartbeatTimeout
  let retryBaseDelay := orPositive c.retryBaseDelay d.retryBaseDelay
  let retryMaxDelay := orPositive c.retryMaxDelay d.retryMaxDelay
  if heartbeatTimeout ≤ heartbeatInterval then
    .error "queue/config: heartbeat_timeout must exceed heartbeat_interval"
  else if c.maxRetries < 0 then .error "queue/config: max_retries must be >= 0"
  else if c.retryJitter < 0 ∨ c.retryJitter > 1 then
    .error "queue/config: retry_jitter must be in [0,1]"
  else .ok
    { streams :=
        ⟨orName c.streams.execution d.streams.execution, orName c.streams.retry d.streams.retry,
          orName c.streams.deadLetter d.streams.deadLetter, orName c.streams.group d.streams.group⟩
      workerCount := workerCount
      maxWorkerCount := if maxWorkerCount < workerCount then workerCount else maxWorkerCount
      heartbeatInterval := heartbeatInterval
      heartbeatTimeout := heartbeatTimeout
      heartbeatCheckInterval := orPositive c.heartbeatCheckInterval d.heartbeatCheckInterval
      visibilityTimeout := orPositive c.visibilityTimeout d.visibilityTimeout
      consumerBatchSize := orPositive c.consumerBatchSize d.consumerBatchSize
      consumerBlock := if c.consumerBlock < 0 then d.consumerBlock else c.consumerBlock
      pendingCheckInterval := orPositive c.pendingCheckInterval d.pendingCheckInterval
      maxRetries := if c.maxRetries = 0 then d.maxRetries else c.maxRetries
      retryBaseDelay := retryBaseDelay
      retryMaxDelay := if retryMaxDelay < retryBaseDelay then retryBaseDelay else retryMaxDelay
      retryJitter := c.retryJitter
      deadLetterMaxLen := c.deadLetterMaxLen
      shutdownGrace := orPositive c.shutdownGrace d.shutdownGrace }

theorem Config.validate_maxRetries {c cfg : Config} (h : c.validate = .ok cfg) : 0 < cfg.maxRetries := by
  unfold Config.validate at h
  simp only at h
  split at h
  · cases h
  split at h
  · cases h
  split at h
  · cases h
  cases h
  show 0 < (if c.maxRetries = 0 then Config.default.maxRetries else c.maxRetries)
  split
  · decide
  · omega

theorem Config.validate_default : Config.default.validate = .ok Config.default := by
  decide +kernel

def Config.ceiling (cfg : Config) (m : Message) : Int :=
  if m.maxRetries ≤ 0 then cfg.maxRetries else m.maxRetries

theorem Config.ceiling_pos {cfg : Config} (h : 0 < cfg.maxRetries) (m : Message) : 0 < cfg.ceiling m := by
  unfold Config.ceiling
  split <;> omega

end Queue
