import Cpip.Lib.Pool
import Cpip.Queue.Stream

/-!
# Queue: the goroutines of the queue manager, step by step

`Kind` names the goroutines of the subsystem and the calls made on it, `Pc` the points between two of their accesses
to shared data, with what they hold, and `Pc.next` is one access.

The answer of the environment to a step carries the clock, and says whether a stream command succeeds and what the
handler returns.  The loops, the workers and the timers may be started in any number and at any time, and the
monitor may find any worker late.  The other calls on the orchestrator are arbitrary legal operations on its job
registry.
-/

namespace Queue

open Pool

open Function (update)

/-! ## state -/

/-- what happened, for the record; no step reads it -/
inductive Obs where
  /-- an entry with this message was appended to the execution stream -/
  | queued (m : Message) (id : ID)
  /-- an entry was read or reclaimed -/
  | delivered (id : ID)
  /-- a message was put into the channel of a worker -/
  | handed (m : Message)
  /-- a worker let go of the message of this entry -/
  | dropped (id : ID)
  /-- the handler returned nil -/
  | handled (m : Message)
  /-- the message was handed to the retry manager -/
  | retried (m : Message)
  /-- the message was written to the dead-letter stream -/
  | dead (m : Message)
  /-- the dispatch of the message was rejected -/
  | rejected (m : Message)
  /-- the job was cancelled -/
  | cancelled (jobID : String)
  /-- the process died -/
  | crashed
deriving DecidableEq

/-- a goroutine of `waitAndRequeue`: waiting or under way, or how it ended -/
inductive TimerState where
  | waiting
  | running
  | requeued
  | buried
  | lost
deriving DecidableEq

structure Timer where
  msg : Message
  state : TimerState := .waiting

structure State where
  /-- an orchestrator is wired (`Params.Orch`) -/
  orch : Bool := true
  last : ID := ID.zero
  exec : Stream Fields := {}
  dlq : Stream Fields := {}
  jobs : Exec.Registry := fun _ => none
  workers : Workers := fun _ => none
  idle : List String := []
  jobCh : String → Option Message := fun _ => none
  timers : List Timer := []
  streamIDs : String → Option ID := fun _ => none
  calls : Nat := 0
  log : List Obs := []

variable (s : State)

def State.enqueue (now : Int) (m : Message) : State :=
  let id := nextID s.last now
  { s with
    last := id
    exec := s.exec.add id (marshal m)
    log := .queued m id :: s.log }

def setMetadata (l : List (String × String)) (k v : String) : List (String × String) :=
  (k, v) :: l.filter (·.1 ≠ k)

def Message.bury (m : Message) (reason : String) : Message :=
  { m with
    state := .deadLetter
    metadata := setMetadata m.metadata "dead_letter_reason" reason }

def State.bury (now : Int) (m : Message) (reason : String) : State :=
  let id := nextID s.last now
  { s with
    last := id
    dlq := s.dlq.add id (marshal (m.bury reason))
    log := .dead m :: s.log }

def State.tryWorkers (r : Option Workers) : State :=
  match r with
  | some w => { s with workers := w }
  | none => s

def State.tryMark (jobID : String) (t : Exec.State) (f : Exec.Job → Exec.Job) : State :=
  if s.orch then
    match s.jobs.transition jobID t f with
    | .ok r => { s with jobs := r }
    | .error _ => s
  else s

/-- the state after the process died: the streams are kept -/
def State.crash : State where
  orch := s.orch
  last := s.last
  exec := s.exec
  dlq := s.dlq
  calls := s.calls
  log := .crashed :: s.log

/-! ## threads -/

/-- the operations of the other calls on the job registry -/
inductive JobOp where
  | add (j : Exec.Job)
  | transition (id : String) (t : Exec.State)
  | remove (id : String)
deriving DecidableEq

inductive Kind where
  /-- `Consumer.Start` -/
  | start
  /-- `Consumer.fetchLoop` -/
  | fetch
  /-- `Consumer.recoveryLoop` -/
  | recovery
  /-- `workerThread.run` -/
  | worker (w : String)
  /-- `retry.Manager.waitAndRequeue` -/
  | requeue (k : Nat)
  /-- `Manager.Schedule` -/
  | schedule (j : Exec.Job)
  /-- `Manager.Cancel` -/
  | cancel (jobID : String)
  /-- the event listener of the manager drops a cached identifier -/
  | forget (jobID : String)
  /-- `Monitor.checkWorkers` finds a worker late -/
  | offline (w : String)
  /-- a worker that stops is deregistered -/
  | deregister (w : String)
  /-- another call on the orchestrator -/
  | job (op : JobOp)
  /-- another producer appends an entry that is not a message -/
  | foreign

/-- where a consumer loop goes on after an entry -/
inductive Cont where
  | fetch
  | recover (rest : List (Entry Fields)) (start next : ID)
deriving DecidableEq

/-- why an entry is acknowledged and deleted -/
inductive Reason where
  /-- it could not be decoded -/
  | undecodable
  /-- its dispatch was rejected -/
  | rejected (m : Message)
  /-- it was delivered too often; `sent` if the dead-letter write succeeded -/
  | poison (m : Message) (sent : Bool)
  /-- its handler returned nil -/
  | handled (m : Message)
  /-- its handler failed for the last time; `sent` if the dead-letter write succeeded -/
  | dead (m : Message) (sent : Bool)
  /-- its handler failed, and timer `k` will requeue it -/
  | retried (m : Message) (k : Nat)
deriving DecidableEq

inductive After where
  | loop (w : String) (k : Cont)
  | worker (w : String) (failed : Bool)
deriving DecidableEq

inductive Pc where
  | startGroup
  | fetchTake
  | fetchRead (w : String)
  | recoverTick
  | recoverClaim (start : ID)
  | recoverNext (rest : List (Entry Fields)) (start next : ID)
  | recoverCount (w : String) (m : Message) (k : Cont)
  | recoverPoison (w : String) (m : Message) (count : Nat) (k : Cont)
  | dispatchGet (w : String) (m : Message) (k : Cont)
  | dispatchReserve (w : String) (m : Message) (k : Cont)
  | dispatchAssign (w : String) (m : Message) (k : Cont)
  | dispatchMark (w : String) (m : Message) (k : Cont)
  | rollbackState (w : String) (m : Message) (k : Cont)
  | rollbackJob (w : String) (m : Message) (k : Cont)
  | submit (w : String) (m : Message) (k : Cont)
  | ack (id : ID) (why : Reason) (k : After)
  | delete (id : ID) (why : Reason) (k : After)
  | release (w : String) (k : Cont)
  | workerRegister (w : String)
  | workerReady (w : String)
  | workerPush (w : String)
  | workerTake (w : String)
  | workerBegin (w : String) (m : Message)
  | workerStarted (w : String) (m : Message)
  | workerHandle (w : String) (m : Message)
  | workerSettle (w : String) (m : Message) (err : Option String)
  | workerClear (w : String) (m : Message) (err : Option String)
  | workerReport (w : String) (m : Message) (err : Option String)
  | workerRetry (w : String) (m : Message) (err : String)
  | workerRecover (w : String)
  | workerIdle (w : String)
  | requeueTake (k : Nat)
  | requeueAdd (k : Nat) (m : Message)
  | requeueBury (k : Nat) (m : Message) (err : String)
  | scheduleAdd (j : Exec.Job)
  | scheduleStore (jobID : String) (id : ID)
  | cancelLoad (jobID : String)
  | cancelDelete (jobID : String) (id : ID)
  | forgetID (jobID : String)
  | markOffline (w : String)
  | removeWorker (w : String)
  | jobCall (op : JobOp)
  | foreignAdd
  | done
deriving DecidableEq

def Kind.entry : Kind → Pc
  | .start => .startGroup
  | .fetch => .fetchTake
  | .recovery => .recoverTick
  | .worker w => .workerRegister w
  | .requeue k => .requeueTake k
  | .schedule j => .scheduleAdd j
  | .cancel id => .cancelLoad id
  | .forget id => .forgetID id
  | .offline w => .markOffline w
  | .deregister w => .removeWorker w
  | .job op => .jobCall op
  | .foreign => .foreignAdd

def Cont.resume : Cont → Pc
  | .fetch => .fetchTake
  | .recover rest start next => .recoverNext rest start next

/-- the answer of the environment to a step: the clock, or the error of the stream command or of
the handler -/
inductive Ans where
  | ok (now : Int)
  | fail (err : String)

/-- what follows the removal of an entry -/
def After.resume : After → Pc
  | .loop w k => .release w k
  | .worker w true => .workerRecover w
  | .worker w false => .workerIdle w

/-! ## steps -/

/-- the message of a reclaimed entry after `count` deliveries: the counters are merged by their
maximum -/
def Message.redelivered (m : Message) (count : Nat) : Message :=
  if count - 1 > m.retryCount then { m with retryCount := count - 1 } else m

def Message.retry (m : Message) : Message :=
  { m with retryCount := m.retryCount + 1, state := .retry }

def Message.requeue (m : Message) : Message := { m with state := .queued, workerID := "" }

def reject (w : String) (m : Message) (k : Cont) : Pc × State :=
  (.ack m.streamID (.rejected m) (.loop w k), { s with log := .rejected m :: s.log })

section
variable (cfg : Config)

def State.jobOp : JobOp → State
  | .add j =>
    match s.jobs.add j with
    | .ok r => { s with jobs := r }
    | .error _ => s
  | .transition id t =>
    match s.jobs.transition id t fun j => j with
    | .ok r => { s with
        jobs := r
        log := if t = .cancelled then .cancelled id :: s.log else s.log }
    | .error _ => s
  | .remove id => { s with jobs := s.jobs.remove id }

def Pc.next (s : State) : Pc → Ans → Option (Pc × State)
  -- consumer.Start
  | .startGroup, .ok _ =>
    some (.done, { s with exec := s.exec.createGroup cfg.streams.group .dollar })
  | .startGroup, .fail _ => some (.done, s)
  -- consumer.fetchLoop
  | .fetchTake, _ =>
    match s.idle with
    | [] => none
    | w :: ws => some (.fetchRead w, { s with idle := ws })
  | .fetchRead w, .fail _ => some (.release w .fetch, s)
  | .fetchRead w, .ok now =>
    match s.exec.readGroup cfg.streams.group "consumer" 1 false (fun _ => now) with
    | none => some (.release w .fetch, s)
    | some ([], x) => some (.release w .fetch, { s with exec := x })
    | some (e :: _, x) =>
      let s' := { s with exec := x, log := .delivered e.id :: s.log }
      match unmarshal e.id e.fields with
      | none => some (.ack e.id .undecodable (.loop w .fetch), s')
      | some m => some (.dispatchGet w m .fetch, s')
  -- consumer.recoverPending
  | .recoverTick, _ => some (.recoverClaim ID.zero, s)
  | .recoverClaim _, .fail _ => some (.recoverTick, s)
  | .recoverClaim start, .ok now =>
    match s.exec.autoClaim cfg.streams.group "consumer-recovery" cfg.visibilityTimeout start 10 now with
    | (_, [], x) => some (.recoverTick, { s with exec := x })
    | (nx, es, x) =>
      some (.recoverNext es start nx,
        { s with exec := x, log := es.map (fun e => .delivered e.id) ++ s.log })
  | .recoverNext [] start nx, _ =>
    some (if nx = ID.zero ∨ nx = start then .recoverTick else .recoverClaim nx, s)
  | .recoverNext (e :: es) start nx, _ =>
    match s.idle with
    | [] => none
    | w :: ws =>
      let s' := { s with idle := ws }
      match unmarshal e.id e.fields with
      | none => some (.ack e.id .undecodable (.loop w (.recover es start nx)), s')
      | some m => some (.recoverCount w m (.recover es start nx), s')
  | .recoverCount w m k, a =>
    let count : Nat :=
      match a with
      | .ok _ => (s.exec.pending cfg.streams.group m.streamID).getD 1
      | .fail _ => 1
    some (if (count : Int) > cfg.ceiling m then .recoverPoison w m count k
      else .dispatchGet w (m.redelivered count) k, s)
  | .recoverPoison w m count k, .ok now =>
    some (.ack m.streamID (.poison m true) (.loop w k),
      s.bury now m ("poison message: delivery count " ++ toString count ++
        " exceeded max retries " ++ toString (cfg.ceiling m)))
  | .recoverPoison w m _ k, .fail _ =>
    some (.ack m.streamID (.poison m false) (.loop w k), s)
  -- dispatcher.Dispatch
  | .dispatchGet w m k, _ =>
    match s.workers w with
    | some x => some (if x.state = .idle then (.dispatchReserve w m k, s) else reject s w m k)
    | none => some (reject s w m k)
  | .dispatchReserve w m k, _ =>
    match s.workers.updateState w .reserved with
    | some r => some (.dispatchAssign w m k, { s with workers := r })
    | none => some (reject s w m k)
  | .dispatchAssign w m k, _ =>
    match s.workers.updateCurrentJob w m.jobID m.messageID with
    | some r => some (.dispatchMark w m k, { s with workers := r })
    | none => some (.rollbackState w m k, s)
  | .dispatchMark w m k, _ =>
    if s.orch then
      match s.jobs.transition m.jobID .dispatched fun j => { j with workerID := w } with
      | .ok r => some (.submit w m k, { s with jobs := r })
      | .error _ => some (.rollbackState w m k, s)
    else some (.submit w m k, s)
  | .rollbackState w m k, _ =>
    some (.rollbackJob w m k, s.tryWorkers (s.workers.updateState w .idle))
  | .rollbackJob w m k, _ =>
    some (reject (s.tryWorkers (s.workers.updateCurrentJob w "" "")) w m k)
  -- workers.Pool.Submit
  | .submit w m k, _ =>
    match s.jobCh w with
    | some _ => none
    | none => some (k.resume,
        { s with jobCh := update s.jobCh w (some m), log := .handed m :: s.log })
  -- an entry leaves the stream
  | .ack id why k, .ok _ =>
    some (.delete id why k, { s with exec := s.exec.ack cfg.streams.group id })
  | .ack id why k, .fail _ => some (.delete id why k, s)
  | .delete id _ k, .ok _ => some (k.resume, { s with exec := s.exec.delete id })
  | .delete _ _ k, .fail _ => some (k.resume, s)
  -- workers.Pool.ReleaseWorker
  | .release w k, _ =>
    some (k.resume,
      if (s.idle.length : Int) < cfg.workerCount then { s with idle := s.idle ++ [w] } else s)
  -- workerThread.run
  | .workerRegister w, _ =>
    match s.workers.register w with
    | some r => some (.workerReady w, { s with workers := r })
    | none => some (.done, s)
  | .workerReady w, _ =>
    match s.workers.updateState w .idle with
    | some r => some (.workerPush w, { s with workers := r })
    | none => some (.removeWorker w, s)
  | .workerPush w, _ =>
    if (s.idle.length : Int) < cfg.workerCount then
      some (.workerTake w, { s with idle := s.idle ++ [w] })
    else none
  | .workerTake w, _ =>
    match s.jobCh w with
    | none => none
    | some m => some (.workerBegin w m, { s with jobCh := update s.jobCh w none })
  -- workerThread.execute
  | .workerBegin w m, _ =>
    match s.workers.updateState w .executing with
    | some r => some (.workerStarted w m, { s with workers := r })
    | none => some (.workerPush w, { s with log := .dropped m.streamID :: s.log })
  | .workerStarted w m, _ => some (.workerHandle w m, s.tryMark m.jobID .running id)
  | .workerHandle w m, .ok _ =>
    some (.workerSettle w m none, { s with log := .handled m :: s.log })
  | .workerHandle w m, .fail err => some (.workerSettle w m (some err), s)
  | .workerSettle w m err, _ =>
    some (.workerClear w m err, s.tryWorkers (s.workers.updateState w (if err = none then .completed else .failed)))
  | .workerClear w m err, _ =>
    some (.workerReport w m err, s.tryWorkers (s.workers.updateCurrentJob w "" ""))
  | .workerReport w m none, _ =>
    some (.ack m.streamID (.handled m) (.worker w false),
      s.tryMark m.jobID .completed fun j => { j with outcome := .success })
  | .workerReport w m (some err), _ =>
    some (.workerRetry w m err, s.tryMark m.jobID .failed fun j => { j with outcome := .failure })
  -- retry.Manager.ScheduleRetry
  | .workerRetry w m err, a =>
    if (m.retryCount : Int) ≥ cfg.ceiling m then
      match a with
      | .ok now => some (.ack m.streamID (.dead m true) (.worker w true),
          s.bury now m ("max retries exceeded (" ++ toString m.retryCount ++ "/" ++
            toString (cfg.ceiling m) ++ "). last error: " ++ err))
      | .fail _ => some (.ack m.streamID (.dead m false) (.worker w true), s)
    else some (.ack m.streamID (.retried m s.timers.length) (.worker w true),
      { s with timers := s.timers ++ [⟨m.retry, .waiting⟩], log := .retried m :: s.log })
  | .workerRecover w, _ =>
    some (.workerIdle w, s.tryWorkers (s.workers.updateState w .recovering))
  | .workerIdle w, _ => some (.workerPush w, s.tryWorkers (s.workers.updateState w .idle))
  -- retry.Manager.waitAndRequeue
  | .requeueTake k, _ =>
    match s.timers[k]? with
    | some ⟨m, .waiting⟩ =>
      some (.requeueAdd k m.requeue, { s with timers := s.timers.set k ⟨m, .running⟩ })
    | _ => none
  | .requeueAdd k m, .ok now =>
    some (.done, { s.enqueue now m with timers := s.timers.set k ⟨m, .requeued⟩ })
  | .requeueAdd k m, .fail err => some (.requeueBury k m err, s)
  | .requeueBury k m err, .ok now =>
    some (.done, { s.bury now m ("failed to enqueue retry: " ++ err) with
      timers := s.timers.set k ⟨m, .buried⟩ })
  | .requeueBury k m _, .fail _ =>
    some (.done, { s with timers := s.timers.set k ⟨m, .lost⟩ })
  -- manager.Schedule
  | .scheduleAdd j, .ok now =>
    if j.id = "" then some (.done, s)
    else
      some (.scheduleStore j.id (nextID s.last now),
        { s.enqueue now (Message.ofJob s.calls j) with calls := s.calls + 1 })
  | .scheduleAdd _, .fail _ => some (.done, s)
  | .scheduleStore jobID sid, _ =>
    some (.done, { s with streamIDs := update s.streamIDs jobID (some sid) })
  -- manager.Cancel
  | .cancelLoad jobID, _ =>
    let s' := { s with log := .cancelled jobID :: s.log }
    match s.streamIDs jobID with
    | none => some (.done, s')
    | some sid => some (.cancelDelete jobID sid, s')
  | .cancelDelete jobID sid, .ok _ =>
    some (.done, { s with
      exec := s.exec.delete sid
      streamIDs := update s.streamIDs jobID none })
  | .cancelDelete _ _, .fail _ => some (.done, s)
  | .forgetID jobID, _ =>
    some (.done, { s with streamIDs := update s.streamIDs jobID none })
  -- the monitor, the end of a worker, the other calls
  | .markOffline w, _ => some (.done, s.tryWorkers (s.workers.updateState w .offline))
  | .removeWorker w, _ => some (.done, { s with workers := update s.workers w none })
  | .jobCall op, _ => some (.done, s.jobOp op)
  | .foreignAdd, .ok now =>
    let sid := nextID s.last now
    some (.done, { s with last := sid, exec := s.exec.add sid .malformed })
  | .foreignAdd, .fail _ => some (.done, s)
  | .done, _ => none

/-- **the goroutines of the queue as threads over its state** -/
def queue : Prog Kind State Pc Ans := ⟨Kind.entry, fun pc s a => pc.next cfg s a⟩

def next (s : Sys State Pc) (l : Move Kind Ans) : Option (Sys State Pc) :=
  (queue cfg).move State.crash s l

end

/-! ## pieces of runs -/

def steps (i n : Nat) : List (Move Kind Ans) := List.replicate n (.act (.step i (.ok 0)))

def call (i : Nat) (c : Kind) (n : Nat) : List (Move Kind Ans) :=
  .act (.spawn i c) :: steps i n

def submitted (id : String) : List (Move Kind Ans) :=
  call 10 (.job (.add { id := id })) 1 ++ call 11 (.job (.transition id .validated)) 1 ++
    call 12 (.job (.transition id .queued)) 1

end Queue
