import Mathlib.Logic.Function.Basic
import Mathlib.Tactic.Common

/-!
# Execution orchestrator: jobs, the live registry and the job store

The data of `internal/execution/job`, with `registry.Registry` and `storage.MemoryRepository`.

Counters are `Nat` (`int` counters that start at zero and only grow), limits and durations are
`Int`.  Timestamps, the program text and its options are left out: nothing modelled here reads
them.  The secondary indexes of the registry are derived from the jobs it holds.
-/

namespace Exec

open Function (update)

/-! ## lifecycle -/

inductive State where
  | pending
  | validated
  | queued
  | dispatched
  | running
  | streaming
  | completed
  | failed
  | timedOut
  | cancelled
  | retrying
  | archived
deriving DecidableEq

def canTransition : State → State → Bool
  | .pending, t => t == .validated || t == .failed || t == .cancelled
  | .validated, t => t == .queued || t == .failed || t == .cancelled
  | .queued, t => t == .dispatched || t == .failed || t == .timedOut || t == .cancelled
  | .dispatched, t => t == .running || t == .failed || t == .timedOut || t == .cancelled
  | .running, t =>
    t == .streaming || t == .completed || t == .failed || t == .timedOut || t == .cancelled
  | .streaming, t => t == .completed || t == .failed || t == .timedOut || t == .cancelled
  | .completed, t => t == .archived
  | .failed, t => t == .retrying || t == .archived
  | .timedOut, t => t == .retrying || t == .archived
  | .cancelled, t => t == .archived
  | .retrying, t => t == .queued || t == .failed || t == .cancelled
  | .archived, _ => false

def State.canRetry : State → Bool
  | .failed => true
  | .timedOut => true
  | _ => false

inductive Outcome where
  | none
  | success
  | failure
  | timeout
  | cancelled
deriving DecidableEq

/-- the errors of `internal/execution/job` the calls below return; `rejected` is a failure of the
validation pipeline with its reason -/
inductive Err where
  | rejected (reason : String)
  | jobNotFound
  | duplicateJob
  | illegalTransition
  | cancellationConflict
  | retryConflict
  | retriesExhausted
  | schedulerUnavailable
deriving DecidableEq

/-! ## records -/

structure ResourceProfile where
  tier : String := ""
  memoryBytes : Int := 0
  cpuMillicores : Int := 0
  pidsLimit : Int := 0
  tmpfsBytes : Int := 0
  wallTimeout : Int := 0
deriving DecidableEq

structure Request where
  requestID : String := ""
  correlationID : String := ""
  userID : String := ""
  sessionID : String := ""
  roomID : String := ""
  language : String := ""
  priority : Int := 0
  timeout : Int := 0
  resources : Option ResourceProfile := none
  metadata : List (String × String) := []
deriving DecidableEq

/-- a job (`job.Job`); the defaults are the zero value of the source -/
structure Job where
  id : String := ""
  requestID : String := ""
  correlationID : String := ""
  userID : String := ""
  sessionID : String := ""
  roomID : String := ""
  language : String := ""
  priority : Int := 0
  state : State := .pending
  outcome : Outcome := .none
  retryCount : Nat := 0
  maxRetries : Int := 0
  timeout : Int := 0
  resources : ResourceProfile := {}
  cancelRequested : Bool := false
  metadata : List (String × String) := []
  workerID : String := ""
  transitions : Nat := 0
deriving DecidableEq

structure Defaults where
  id : String
  requestID : String
  correlationID : String
  timeout : Int
  maxRetries : Int
  resources : ResourceProfile

def Job.new (req : Request) (d : Defaults) : Job :=
  let timeout := if req.timeout ≤ 0 then d.timeout else req.timeout
  let resources :=
    match req.resources with
    | some r => if r = {} then d.resources else r
    | none => d.resources
  { id := d.id
    requestID := d.requestID
    correlationID := d.correlationID
    userID := req.userID
    sessionID := req.sessionID
    roomID := req.roomID
    language := req.language
    priority := req.priority
    maxRetries := d.maxRetries
    timeout := timeout
    resources :=
      if resources.wallTimeout ≤ 0 then { resources with wallTimeout := timeout } else resources
    metadata := req.metadata }

/-! ## live registry -/

abbrev Registry := String → Option Job

variable (r : Registry)

def Registry.add (j : Job) : Except Err Registry :=
  match r j.id with
  | some _ => .error .duplicateJob
  | none => .ok (update r j.id (some j))

/-- a snapshot of a job (`Registry.Get`); an unknown job reads as the zero value -/
def Registry.get (id : String) : Job × Bool :=
  match r id with
  | some j => (j, true)
  | none => ({}, false)

def Job.moved (j : Job) (t : State) (mutate : Job → Job) : Job :=
  mutate { j with state := t, transitions := j.transitions + 1 }

def Registry.transition (id : String) (t : State) (mutate : Job → Job) : Except Err Registry :=
  match r id with
  | none => .error .jobNotFound
  | some j =>
    if canTransition j.state t then .ok (update r id (some (j.moved t mutate)))
    else .error .illegalTransition

def Registry.remove (id : String) : Registry := update r id none

theorem Registry.transition_ok {r r' : Registry} {id : String} {t : State} {f : Job → Job}
    (h : r.transition id t f = .ok r') : ∃ j, r id = some j ∧ canTransition j.state t = true ∧
      r' = update r id (some (j.moved t f)) := by
  unfold Registry.transition at h
  split at h
  · cases h
  rename_i j hj
  split at h
  · rename_i hc
    cases h
    exact ⟨j, hj, hc, rfl⟩
  · cases h

theorem Registry.transition_error {r : Registry} {id : String} {t : State} {f : Job → Job}
    {err : Err} (h : r.transition id t f = .error err) : ∀ j, r id = some j → canTransition j.state t = false := by
  intro j hj
  unfold Registry.transition at h
  simp only [hj] at h
  split at h
  · cases h
  · rename_i hc
    exact Bool.eq_false_iff.mpr hc

/-! ## job store -/

abbrev Repository := String → Option Job

def Repository.save (s : Repository) (j : Job) : Repository := update s j.id (some j)

def Repository.delete (s : Repository) (id : String) : Repository := update s id none

end Exec
