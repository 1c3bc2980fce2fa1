import Cpip.Lib.Pool
import Cpip.Exec.Job

/-!
# Execution orchestrator: its calls, step by step

`Call` names the calls on the orchestrator, `Pc` the points of a call between two of its accesses to
shared data, with what it holds, and `Pc.next` is one access: a registry transition or read, an
operation of the context manager, of the in-memory scheduler, of the store or of the archive sink.

The verdict of the validation pipeline is the answer of the environment; the identifiers a submission
draws are arguments of the call.  Events, metrics and times are left out: nothing modelled here reads
them.  A failing archive sink is only logged, so the sink always succeeds here.
-/

namespace Exec

open Pool List Lts
open Function (update update_of_ne update_self)

/-! ## context manager -/

structure ExecutionContext where
  jobID : String
  userID : String
  sessionID : String
  roomID : String
  language : String
  requestID : String
  correlationID : String
  resources : ResourceProfile
  workerID : String := ""
  cancelled : Bool := false

abbrev Contexts := String → Option ExecutionContext

variable (c : Contexts)

def Contexts.create (j : Job) : Contexts :=
  update c j.id (some
    { jobID := j.id
      userID := j.userID
      sessionID := j.sessionID
      roomID := j.roomID
      language := j.language
      requestID := j.requestID
      correlationID := j.correlationID
      resources := j.resources })

def Contexts.cancel (id : String) : Contexts :=
  update c id ((c id).map fun x => { x with cancelled := true })

def Contexts.release (id : String) : Contexts := update c id none

def Contexts.assign (id workerID : String) : Contexts :=
  update c id ((c id).map fun x =>
    if workerID = "" then x else { x with workerID := workerID })

/-! ## in-memory scheduler -/

structure Entry where
  jobID : String
  priority : Int
  seq : Nat

structure Scheduler where
  entries : List Entry := []
  seq : Nat := 0

variable (m : Scheduler)

def Scheduler.has (id : String) : Bool := m.entries.any (·.jobID = id)

/-- record a job within the capacity (`Memory.Schedule`, `Memory.Retry`); a capacity that is not
positive is no bound -/
def Scheduler.schedule (capacity : Int) (j : Job) : Option Scheduler :=
  if m.has j.id = false ∧ 0 < capacity ∧ capacity ≤ m.entries.length then none
  else some
    { entries := m.entries.filter (·.jobID ≠ j.id) ++ [⟨j.id, j.priority, m.seq + 1⟩]
      seq := m.seq + 1 }

def Scheduler.cancel (id : String) : Scheduler :=
  { m with entries := m.entries.filter (·.jobID ≠ id) }

theorem schedule_has {m m' : Scheduler} {capacity : Int} {j : Job} {id : String}
    (h : m.schedule capacity j = some m') (hid : id ≠ j.id) (hm : m.has id = false) : m'.has id = false := by
  unfold Scheduler.schedule at h
  split at h
  · cases h
  cases h
  simp only [Scheduler.has, any_append, any_filter, any_cons, any_nil,
    Bool.or_false, Bool.or_eq_false_iff, decide_eq_false_iff_not]
  refine ⟨?_, Ne.symm hid⟩
  rw [any_eq_false]
  intro e he
  have := any_eq_false.mp hm e he
  simp [this]

theorem cancel_has (id : String) : (m.cancel id).has id = false := by
  simp [Scheduler.cancel, Scheduler.has, any_filter]

theorem cancel_has_of {m : Scheduler} {id : String} (hm : m.has id = false) (i : String) :
    (m.cancel i).has id = false := by
  unfold Scheduler.has at *
  rw [any_eq_false] at *
  exact fun e he => hm e (mem_of_mem_filter he)

/-! ## settings -/

structure Language where
  profile : ResourceProfile
  defaultTimeout : Int

/-- the settings of the orchestrator (`config.Config`, the language registry, the capacity of the
scheduler) -/
structure Deps where
  defaultTimeout : Int := 10000000000
  maxTimeout : Int := 60000000000
  maxRetries : Int := 3
  langs : String → Option Language := fun _ => none
  capacity : Int := 0

def Deps.resolveDefaults (d : Deps) (req : Request) (id : String) : Defaults :=
  let lang := d.langs req.language
  let profile : ResourceProfile := (lang.map Language.profile).getD {}
  let t := match lang with
    | some l => if req.timeout ≤ 0 ∧ 0 < l.defaultTimeout then l.defaultTimeout else req.timeout
    | none => req.timeout
  let t := if t ≤ 0 then d.defaultTimeout else t
  let t := if d.maxTimeout < t then d.maxTimeout else t
  { id := id
    requestID := req.requestID
    correlationID := req.correlationID
    timeout := t
    maxRetries := d.maxRetries
    resources := profile }

/-! ## calls -/

structure Orchestrator where
  reg : Registry := fun _ => none
  ctxMgr : Contexts := fun _ => none
  sched : Scheduler := {}
  store : Repository := fun _ => none
  archive : Repository := fun _ => none

inductive Mark where
  | dispatched (workerID : String)
  | started
  | streaming
  | completed
  | failed
  | timedOut
deriving DecidableEq

def Mark.target : Mark → State
  | .dispatched _ => .dispatched
  | .started => .running
  | .streaming => .streaming
  | .completed => .completed
  | .failed => .failed
  | .timedOut => .timedOut

def Mark.mutate : Mark → Job → Job
  | .dispatched w, j => { j with workerID := w }
  | .completed, j => { j with outcome := .success }
  | .failed, j => { j with outcome := .failure }
  | .timedOut, j => { j with outcome := .timeout }
  | _, j => j

inductive Call where
  | submit (req : Request) (requestID correlationID id : String)
  | cancel (id : String)
  | retry (id : String)
  | mark (m : Mark) (id : String)
  | archive (id : String) (sink : Bool)

inductive Via where
  | submit
  | retry
deriving DecidableEq

/-- the state from which that call moves the job to `Queued` -/
def Via.source : Via → State
  | .submit => .validated
  | .retry => .retrying

inductive After where
  | returns (res : Job) (err : Option Err)
  | release (id : String)
  | cancel (id : String)
deriving DecidableEq

inductive Pc where
  | validate (req : Request) (id : String)
  | add (req : Request) (id : String)
  | validated (j : Job)
  | createContext (via : Via) (id : String) (j : Job)
  | queueMark (via : Via) (id : String)
  | queueGet (via : Via) (id : String)
  | schedule (via : Via) (id : String) (snap : Job)
  | failMark (id : String)
  | failGet (id : String)
  | failRelease (id : String) (snap : Job)
  | persist (snap : Job) (k : After)
  | cancelMark (id : String)
  | cancelContext (id : String)
  | cancelSchedule (id : String)
  | cancelGet (id : String)
  | cancelRelease (id : String) (snap : Job)
  | retryGet (id : String)
  | retryMark (id : String)
  | retryRead (id : String)
  | assign (m : Mark) (id workerID : String)
  | advance (m : Mark) (id : String)
  | advanceGet (m : Mark) (id : String)
  | releaseContext (id : String)
  | stopContext (id : String)
  | archiveMark (id : String) (sink : Bool)
  | archiveRemove (id : String) (sink : Bool)
  | archiveRelease (id : String) (sink : Bool) (snap : Job)
  | archiveSink (id : String) (snap : Job)
  | archiveDelete (id : String) (snap : Job)
  | returned (res : Job) (err : Option Err)
deriving DecidableEq

def Call.entry : Call → Pc
  | .submit req rid cid id =>
    .validate { req with
      requestID := if req.requestID = "" then rid else req.requestID
      correlationID := if req.correlationID = "" then cid else req.correlationID } id
  | .cancel id => .cancelMark id
  | .retry id => .retryGet id
  | .mark (.dispatched w) id => .assign (.dispatched w) id w
  | .mark m id => .advance m id
  | .archive id sink => .archiveMark id sink

def Mark.after (id : String) : Mark → After
  | .completed => .release id
  | .timedOut => .cancel id
  | _ => .returns {} none

def After.resume : After → Pc
  | .returns res err => .returned res err
  | .release id => .releaseContext id
  | .cancel id => .stopContext id

inductive Ans where
  | ok
  | reject (reason : String)

section
variable (d : Deps)

def Pc.next (s : Orchestrator) : Pc → Ans → Option (Pc × Orchestrator)
  -- SubmitExecution
  | .validate _ _, .reject reason => some (.returned {} (some (.rejected reason)), s)
  | .validate req id, .ok => some (.add req id, s)
  | .add req id, _ =>
    let j := Job.new req (d.resolveDefaults req id)
    match s.reg.add j with
    | .ok r => some (.validated j, { s with reg := r })
    | .error e => some (.returned {} (some e), s)
  | .validated j, _ =>
    match s.reg.transition j.id .validated id with
    | .ok r => some (.createContext .submit j.id j, { s with reg := r })
    | .error e => some (.returned {} (some e), s)
  | .createContext via id j, _ =>
    some (.queueMark via id, { s with ctxMgr := s.ctxMgr.create j })
  | .queueMark via i, _ =>
    match s.reg.transition i .queued id with
    | .ok r => some (.queueGet via i, { s with reg := r })
    | .error e => some (.returned {} (some e), s)
  | .queueGet via id, _ => some (.schedule via id (s.reg.get id).1, s)
  | .schedule via id snap, _ =>
    match s.sched.schedule d.capacity snap with
    | some m => some (.persist snap (.returns (if via = .submit then snap else {}) none),
        { s with sched := m })
    | none => some (.failMark id, s)
  -- failScheduling
  | .failMark id, _ =>
    match s.reg.transition id .failed fun j => { j with outcome := .failure } with
    | .ok r => some (.failGet id, { s with reg := r })
    | .error _ => some (.returned {} (some .schedulerUnavailable), s)
  | .failGet id, _ => some (.failRelease id (s.reg.get id).1, s)
  | .failRelease id snap, _ =>
    some (.persist snap (.returns {} (some .schedulerUnavailable)),
      { s with ctxMgr := s.ctxMgr.release id })
  | .persist snap k, _ => some (k.resume, { s with store := s.store.save snap })
  -- Cancel
  | .cancelMark id, _ =>
    match s.reg.transition id .cancelled fun j =>
      { j with outcome := .cancelled, cancelRequested := true } with
    | .ok r => some (.cancelContext id, { s with reg := r })
    | .error .illegalTransition => some (.returned {} (some .cancellationConflict), s)
    | .error e => some (.returned {} (some e), s)
  | .cancelContext id, _ => some (.cancelSchedule id, { s with ctxMgr := s.ctxMgr.cancel id })
  | .cancelSchedule id, _ => some (.cancelGet id, { s with sched := s.sched.cancel id })
  | .cancelGet id, _ => some (.cancelRelease id (s.reg.get id).1, s)
  | .cancelRelease id snap, _ =>
    some (.persist snap (.returns {} none), { s with ctxMgr := s.ctxMgr.release id })
  -- Retry
  | .retryGet id, _ =>
    match s.reg id with
    | none => some (.returned {} (some .jobNotFound), s)
    | some j =>
      if j.state.canRetry = false then some (.returned {} (some .retryConflict), s)
      else if j.maxRetries ≤ j.retryCount then some (.returned {} (some .retriesExhausted), s)
      else some (.retryMark id, s)
  | .retryMark id, _ =>
    match s.reg.transition id .retrying fun j =>
      { j with retryCount := j.retryCount + 1, outcome := .none } with
    | .ok r => some (.retryRead id, { s with reg := r })
    | .error .illegalTransition => some (.returned {} (some .retryConflict), s)
    | .error e => some (.returned {} (some e), s)
  | .retryRead id, _ => some (.createContext .retry id (s.reg.get id).1, s)
  -- lifecycle marks
  | .assign m id w, _ => some (.advance m id, { s with ctxMgr := s.ctxMgr.assign id w })
  | .advance m id, _ =>
    match s.reg.transition id m.target m.mutate with
    | .ok r => some (.advanceGet m id, { s with reg := r })
    | .error e => some (.returned {} (some e), s)
  | .advanceGet m id, _ => some (.persist (s.reg.get id).1 (m.after id), s)
  | .releaseContext id, _ => some (.returned {} none, { s with ctxMgr := s.ctxMgr.release id })
  | .stopContext id, _ => some (.returned {} none, { s with ctxMgr := s.ctxMgr.cancel id })
  -- Archive
  | .archiveMark i sink, _ =>
    match s.reg.transition i .archived id with
    | .ok r => some (.archiveRemove i sink, { s with reg := r })
    | .error e => some (.returned {} (some e), s)
  | .archiveRemove id sink, _ =>
    some (.archiveRelease id sink (s.reg.get id).1, { s with reg := s.reg.remove id })
  | .archiveRelease id sink snap, _ =>
    some (if sink then .archiveSink id snap else .archiveDelete id snap,
      { s with ctxMgr := s.ctxMgr.release id })
  | .archiveSink id snap, _ => some (.archiveDelete id snap, { s with archive := s.archive.save snap })
  | .archiveDelete id snap, _ => some (.returned snap none, { s with store := s.store.delete id })
  | .returned _ _, _ => none

/-- **the calls on the orchestrator as threads** -/
def orchestrator : Prog Call Orchestrator Pc Ans := ⟨Call.entry, fun pc s a => pc.next d s a⟩

end

def Pc.isReturned : Pc → Bool
  | .returned _ _ => true
  | _ => false

def Ended (sys : Sys Orchestrator Pc) : Act Call Ans → Prop
  | .spawn i _ => ∃ pc ∈ sys.pool i, pc.isReturned = true
  | .step _ _ => True

def Returned (ls : List (Act Call Ans)) (sys : Sys Orchestrator Pc) : Prop :=
  ∀ l ∈ ls, Ended sys l

instance (sys : Sys Orchestrator Pc) (l : Act Call Ans) : Decidable (Ended sys l) := by
  unfold Ended
  split <;> infer_instance

instance (ls : List (Act Call Ans)) (sys : Sys Orchestrator Pc) : Decidable (Returned ls sys) := by
  unfold Returned
  infer_instance

/-! ## what a step does -/

def Keyed (r : Registry) : Prop := ∀ id j, r id = some j → j.id = id

section
variable {d : Deps} {s s' : Orchestrator} {pc pc' : Pc} {a : Ans}

theorem Registry.get_of_some {r : Registry} {id : String} {j : Job} (h : r id = some j) : (r.get id).1 = j := by
  unfold Registry.get
  rw [h]

theorem Keyed.update {r : Registry} (h : Keyed r) {id : String} {j : Job} (hj : j.id = id) :
    Keyed (update r id (some j)) := by
  intro i x hx
  by_cases hi : i = id
  · subst hi
    rw [update_self] at hx
    cases hx
    exact hj
  · rw [update_of_ne hi] at hx
    exact h i x hx

/-- a step leaves the registry, or moves, adds or removes one job; only `Cancel` cancels one -/
inductive Moves (pc pc' : Pc) (r r' : Registry) : Prop
  | same (h : r' = r)
  | added (j : Job) (hnone : r j.id = none) (hstate : j.state = .pending) (h : r' = update r j.id (some j))
  | moved (id : String) (j : Job) (t : State) (f : Job → Job) (hj : r id = some j)
      (hc : canTransition j.state t = true) (hf : ∀ x : Job, (f x).id = x.id ∧ (f x).state = x.state)
      (hcancel : t = .cancelled → pc = .cancelMark id ∧ pc' = .cancelContext id)
      (h : r' = update r id (some (j.moved t f)))
  | removed (id : String) (h : r' = update r id none)

theorem Mark.mutate_keeps (m : Mark) (j : Job) : (m.mutate j).id = j.id ∧ (m.mutate j).state = j.state := by
  cases m <;> exact ⟨rfl, rfl⟩

theorem Mark.target_ne_cancelled (m : Mark) : m.target ≠ .cancelled := by
  cases m <;> exact (fun h => by cases h)

theorem moves_of_transition {r r' : Registry} {id : String} {t : State} {f : Job → Job}
    (h : r.transition id t f = .ok r') (hf : ∀ x : Job, (f x).id = x.id ∧ (f x).state = x.state)
    (hcancel : t = .cancelled → pc = .cancelMark id ∧ pc' = .cancelContext id) : Moves pc pc' r r' := by
  obtain ⟨j, hj, hc, rfl⟩ := Registry.transition_ok h
  exact .moved id j t f hj hc hf hcancel rfl

/-- **What a step does to the registry.** -/
theorem next_moves (h : pc.next d s a = some (pc', s')) : Moves pc pc' s.reg s'.reg := by
  cases pc
  case add req id =>
    simp only [Pc.next] at h
    split at h
    · rename_i r hr
      cases h
      unfold Registry.add at hr
      split at hr
      · cases hr
      rename_i hnone
      cases hr
      exact .added _ hnone rfl rfl
    · cases h
      exact .same rfl
  case archiveRemove id sink =>
    cases h
    exact .removed id rfl
  case advance m id =>
    simp only [Pc.next] at h
    split at h
    · rename_i r hr
      cases h
      exact moves_of_transition hr m.mutate_keeps fun ht => absurd ht m.target_ne_cancelled
    · cases h
      exact .same rfl
  case cancelMark id =>
    simp only [Pc.next] at h
    split at h
    · rename_i r hr
      cases h
      exact moves_of_transition hr (fun x => ⟨rfl, rfl⟩) fun _ => ⟨rfl, rfl⟩
    all_goals
      cases h
      exact .same rfl
  all_goals cases a
  all_goals simp only [Pc.next] at h
  all_goals repeat' split at h
  all_goals cases h
  all_goals first
    | exact .same rfl
    | refine moves_of_transition ‹_› ?_ ?_
      · exact fun x => ⟨rfl, rfl⟩
      · exact (fun h => by cases h)

theorem Keyed.next (hk : Keyed s.reg) (h : pc.next d s a = some (pc', s')) : Keyed s'.reg := by
  cases next_moves h with
  | same hr => exact hr ▸ hk
  | added j _ _ hr => exact hr ▸ hk.update rfl
  | moved id j t f hj _ hf _ hr =>
    refine hr ▸ hk.update ?_
    exact ((hf _).1).trans (hk id j hj)
  | removed id hr =>
    rw [hr]
    intro i x hx
    by_cases hi : i = id
    · subst hi
      rw [update_self] at hx
      cases hx
    · rw [update_of_ne hi] at hx
      exact hk i x hx

theorem keyed_along (ls : List (Act Call Ans)) :
    Along (orchestrator d).next (fun s _ => Keyed s.shared.reg) (idle {}) ls := by
  refine along_inv (C := fun _ _ => True) (fun s l s' hi _ hn => ?_) (fun id j hj => by cases hj) (along_true _ ls)
  cases l with
  | spawn i c =>
    obtain ⟨-, rfl⟩ := next_spawn hn
    exact hi
  | step i a =>
    obtain ⟨t, t', m, -, hs, rfl⟩ := next_step hn
    exact hi.next hs

theorem Returned.thread {ls : List (Act Call Ans)} {sys : Sys Orchestrator Pc}
    (hret : Returned ls sys) (hr : run (orchestrator d).next (idle {}) ls = some sys) {i : Nat}
    (ht : sys.pool i = some pc) : ∃ res err, pc = .returned res err := by
  rcases spawned hr ht with ⟨u, hu⟩ | ⟨c, hc⟩
  · cases hu
  obtain ⟨pc', hpc, hend⟩ := hret _ hc
  cases ht.symm.trans hpc
  cases pc
  case returned res err => exact ⟨res, err, rfl⟩
  all_goals cases hend

end

/-! ## pieces of runs -/

def steps (i n : Nat) : List (Act Call Ans) := replicate n (.step i .ok)

def call (i : Nat) (c : Call) (n : Nat) : List (Act Call Ans) := .spawn i c :: steps i n

def Call.submitted (id : String) : Call := .submit {} "req-1" "corr-1" id

end Exec
