import Cpip.Queue.Steps

/-!
# Queue: what a step does to the streams

* `Change`, `next_change`  **every step of every thread makes one of these changes**, or leaves the streams alone;
* `next_entries`, `next_ordered`  the entries stay, in the order of their identifiers;
* `next_records`  **the history grows by what a step may put on record**.
-/

namespace Queue

open List

open Function (update update_apply update_self)

/-! ## what a thread holds -/

def Reason.message : Reason → Option Message
  | .undecodable => none
  | .rejected m => some m
  | .poison m _ => some m
  | .handled m => some m
  | .dead m _ => some m
  | .retried m _ => some m

def Pc.message : Pc → Option Message
  | .recoverCount _ m _ => some m
  | .recoverPoison _ m _ _ => some m
  | .dispatchGet _ m _ => some m
  | .dispatchReserve _ m _ => some m
  | .dispatchAssign _ m _ => some m
  | .dispatchMark _ m _ => some m
  | .rollbackState _ m _ => some m
  | .rollbackJob _ m _ => some m
  | .submit _ m _ => some m
  | .ack _ why _ => why.message
  | .delete _ why _ => why.message
  | .workerBegin _ m => some m
  | .workerStarted _ m => some m
  | .workerHandle _ m => some m
  | .workerSettle _ m _ => some m
  | .workerClear _ m _ => some m
  | .workerReport _ m _ => some m
  | .workerRetry _ m _ => some m
  | .requeueAdd _ m => some m
  | .requeueBury _ m _ => some m
  | _ => none

def Cont.rest : Cont → List (Entry Fields)
  | .fetch => []
  | .recover rest _ _ => rest

/-- the claimed entries a thread still has to go through -/
def Pc.page : Pc → List (Entry Fields)
  | .recoverNext rest _ _ => rest
  | .recoverCount _ _ k => k.rest
  | .recoverPoison _ _ _ k => k.rest
  | .dispatchGet _ _ k => k.rest
  | .dispatchReserve _ _ k => k.rest
  | .dispatchAssign _ _ k => k.rest
  | .dispatchMark _ _ k => k.rest
  | .rollbackState _ _ k => k.rest
  | .rollbackJob _ _ k => k.rest
  | .submit _ _ k => k.rest
  | .ack _ _ (.loop _ k) => k.rest
  | .delete _ _ (.loop _ k) => k.rest
  | .release _ k => k.rest
  | _ => []

def Pc.discards : Pc → Option (ID × Reason)
  | .ack id why _ => some (id, why)
  | .delete id why _ => some (id, why)
  | _ => none

/-- the cached entry of a job a thread is about to store or to delete -/
def Pc.caches : Pc → Option (String × ID)
  | .scheduleStore jobID id => some (jobID, id)
  | .cancelDelete jobID id => some (jobID, id)
  | _ => none

def Reason.record : Reason → Option Obs
  | .undecodable => none
  | .rejected m => some (.rejected m)
  | .poison m true => some (.dead m)
  | .poison _ false => none
  | .handled m => some (.handled m)
  | .dead m true => some (.dead m)
  | .dead _ false => none
  | .retried m _ => some (.retried m)

/-- what a thread takes for done -/
def Pc.record : Pc → Option Obs
  | .ack _ why _ => why.record
  | .delete _ why _ => why.record
  | .workerSettle _ m none => some (.handled m)
  | .workerClear _ m none => some (.handled m)
  | .workerReport _ m none => some (.handled m)
  | .cancelDelete jobID _ => some (.cancelled jobID)
  | _ => none

/-- the entry a thread removes from the execution stream when its command succeeds -/
def Pc.removes : Pc → Option ID
  | .delete id _ _ => some id
  | .cancelDelete _ id => some id
  | _ => none

section
variable {cfg : Config} {s s' : State} {pc pc' : Pc} {a : Ans} (r : Option Workers)

@[simp] theorem tryWorkers_exec : (s.tryWorkers r).exec = s.exec := by
  cases r <;> rfl

@[simp] theorem tryWorkers_log : (s.tryWorkers r).log = s.log := by
  cases r <;> rfl

@[simp] theorem tryWorkers_jobCh : (s.tryWorkers r).jobCh = s.jobCh := by
  cases r <;> rfl

@[simp] theorem tryWorkers_rest : (s.tryWorkers r).dlq = s.dlq ∧ (s.tryWorkers r).last = s.last ∧
      (s.tryWorkers r).timers = s.timers ∧ (s.tryWorkers r).streamIDs = s.streamIDs ∧
      (s.tryWorkers r).calls = s.calls := by
  cases r <;> exact ⟨rfl, rfl, rfl, rfl, rfl⟩

section
variable (id : String) (t : Exec.State) (f : Exec.Job → Exec.Job)

theorem tryMark_eq : ∃ r, s.tryMark id t f = { s with jobs := r } := by
  unfold State.tryMark
  repeat' split
  all_goals exact ⟨_, rfl⟩

@[simp] theorem tryMark_exec : (s.tryMark id t f).exec = s.exec := by
  obtain ⟨r, h⟩ := tryMark_eq (s := s) id t f
  rw [h]

@[simp] theorem tryMark_log : (s.tryMark id t f).log = s.log := by
  obtain ⟨r, h⟩ := tryMark_eq (s := s) id t f
  rw [h]

@[simp] theorem tryMark_jobCh : (s.tryMark id t f).jobCh = s.jobCh := by
  obtain ⟨r, h⟩ := tryMark_eq (s := s) id t f
  rw [h]

@[simp] theorem tryMark_rest : (s.tryMark id t f).dlq = s.dlq ∧ (s.tryMark id t f).last = s.last ∧
      (s.tryMark id t f).timers = s.timers ∧ (s.tryMark id t f).streamIDs = s.streamIDs ∧
      (s.tryMark id t f).calls = s.calls := by
  obtain ⟨r, h⟩ := tryMark_eq (s := s) id t f
  rw [h]
  exact ⟨rfl, rfl, rfl, rfl, rfl⟩

end

theorem jobOp_eq (op : JobOp) : ∃ r l, s.jobOp op = { s with jobs := r, log := l } ∧
    (l = s.log ∨ ∃ id, l = .cancelled id :: s.log) := by
  cases op with
  | add j =>
    unfold State.jobOp
    dsimp only
    split <;> exact ⟨_, _, rfl, .inl rfl⟩
  | transition id t =>
    unfold State.jobOp
    dsimp only
    split
    · refine ⟨_, _, rfl, ?_⟩
      split
      · exact .inr ⟨id, rfl⟩
      · exact .inl rfl
    · exact ⟨_, _, rfl, .inl rfl⟩
  | remove id => exact ⟨_, _, rfl, .inl rfl⟩

/-- what a step from `pc` with the answer `a` does to the streams -/
inductive Change (cfg : Config) (s : State) (pc : Pc) (a : Ans) (s' : State) : Prop
  | same (hexec : s'.exec = s.exec) (hdlq : s'.dlq = s.dlq) (hlast : s'.last = s.last)
  | queued (m : Message) (now : Int)
      (hexec : s'.exec = s.exec.add (nextID s.last now) (marshal m)) (hdlq : s'.dlq = s.dlq)
      (hlast : s'.last = nextID s.last now)
      (hlog : s'.log = .queued m (nextID s.last now) :: s.log)
      (hsrc : m.origin = s.calls ∧ s'.calls = s.calls + 1 ∨ ∃ k, pc = .requeueAdd k m)
  | foreign (now : Int) (hexec : s'.exec = s.exec.add (nextID s.last now) .malformed)
      (hdlq : s'.dlq = s.dlq) (hlast : s'.last = nextID s.last now)
  | buried (m : Message) (reason : String) (now : Int) (hexec : s'.exec = s.exec)
      (hdlq : s'.dlq = s.dlq.add (nextID s.last now) (marshal (m.bury reason)))
      (hlast : s'.last = nextID s.last now) (hlog : s'.log = .dead m :: s.log)
  | grouped (hexec : s'.exec = s.exec.createGroup cfg.streams.group .dollar)
      (hdlq : s'.dlq = s.dlq) (hlast : s'.last = s.last)
  | read (e : Entry Fields) (now : Int)
      (hread : s.exec.readGroup cfg.streams.group "consumer" 1 false (fun _ => now) = some ([e], s'.exec))
      (hdlq : s'.dlq = s.dlq) (hlast : s'.last = s.last)
      (hlog : s'.log = .delivered e.id :: s.log)
  | claimed (start nx : ID) (es : List (Entry Fields)) (now : Int)
      (hclaim : s.exec.autoClaim cfg.streams.group "consumer-recovery" cfg.visibilityTimeout start
        10 now = (nx, es, s'.exec))
      (hdlq : s'.dlq = s.dlq) (hlast : s'.last = s.last)
      (hlog : s'.log = es.map (fun e => .delivered e.id) ++ s.log)
      (hpc : pc = .recoverClaim start) (ha : a = .ok now)
  | acked (id : ID) (hexec : s'.exec = s.exec.ack cfg.streams.group id)
      (hdlq : s'.dlq = s.dlq) (hlast : s'.last = s.last) (hlog : s'.log = s.log)
  | removed (id : ID) (hpc : pc.removes = some id) (hexec : s'.exec = s.exec.delete id)
      (hdlq : s'.dlq = s.dlq) (hlast : s'.last = s.last) (ha : ∃ now, a = .ok now)

theorem next_fetchRead {w : String} (h : (Pc.fetchRead w).next cfg s a = some (pc', s')) :
    pc' = .release w .fetch ∧ s' = s ∨ ∃ now e x, a = .ok now ∧
      s.exec.readGroup cfg.streams.group "consumer" 1 false (fun _ => now) = some ([e], x) ∧
      s' = { s with exec := x, log := .delivered e.id :: s.log } ∧
      pc' = (unmarshal e.id e.fields).elim (.ack e.id .undecodable (.loop w .fetch)) (.dispatchGet w · .fetch) := by
  cases a with
  | fail err =>
    cases h
    exact .inl ⟨rfl, rfl⟩
  | ok now =>
    simp only [Pc.next] at h
    split at h
    · cases h
      exact .inl ⟨rfl, rfl⟩
    · rename_i x hr
      obtain ⟨g, -, ⟨-, rfl⟩ | ⟨pre, e, post, -, ⟨⟩, -⟩⟩ := readGroup_one hr
      cases h
      exact .inl ⟨rfl, rfl⟩
    · rename_i e es x hr
      obtain ⟨g, -, ⟨⟨⟩, -⟩ | ⟨pre, e, post, -, ⟨⟩, -⟩⟩ := readGroup_one hr
      split at h
      all_goals
        rename_i hu
        cases h
        exact .inr ⟨now, _, x, rfl, hr, rfl, by rw [hu]; rfl⟩

theorem next_recoverClaim {start : ID} (h : (Pc.recoverClaim start).next cfg s a = some (pc', s')) :
    pc' = .recoverTick ∧ s' = s ∨ ∃ now nx es x, a = .ok now ∧
      s.exec.autoClaim cfg.streams.group "consumer-recovery" cfg.visibilityTimeout start 10 now = (nx, es, x) ∧
      s' = { s with exec := x, log := es.map (fun e => .delivered e.id) ++ s.log } ∧
      (pc' = .recoverTick ∨ pc' = .recoverNext es start nx) := by
  cases a with
  | fail err =>
    cases h
    exact .inl ⟨rfl, rfl⟩
  | ok now =>
    simp only [Pc.next] at h
    split at h
    · rename_i nx x hc
      cases h
      exact .inr ⟨now, nx, [], x, rfl, hc, rfl, .inl rfl⟩
    · rename_i nx es x _ hc
      cases h
      exact .inr ⟨now, nx, es, x, rfl, hc, rfl, .inr rfl⟩

/-- **Every step of every thread is a change of the streams, or leaves them alone.** -/
theorem next_change (h : pc.next cfg s a = some (pc', s')) : Change cfg s pc a s' := by
  cases pc
  case startGroup =>
    cases a <;> cases h
    · exact .grouped rfl rfl rfl
    · exact .same rfl rfl rfl
  case fetchRead w =>
    rcases next_fetchRead h with ⟨-, rfl⟩ | ⟨now, e, x, -, hr, rfl, -⟩
    · exact .same rfl rfl rfl
    · exact .read e now hr rfl rfl rfl
  case recoverClaim start =>
    rcases next_recoverClaim h with ⟨-, rfl⟩ | ⟨now, nx, es, x, rfl, hc, rfl, -⟩
    · exact .same rfl rfl rfl
    · exact .claimed start nx es now hc rfl rfl rfl rfl rfl
  case recoverPoison w m count k | requeueBury k m err =>
    cases a <;> cases h
    · exact .buried m _ _ rfl rfl rfl rfl
    · exact .same rfl rfl rfl
  case ack id why k =>
    cases a <;> cases h
    · exact .acked id rfl rfl rfl rfl
    · exact .same rfl rfl rfl
  case delete id why k | cancelDelete jobID id =>
    cases a <;> cases h
    · exact .removed id rfl rfl rfl rfl ⟨_, rfl⟩
    · exact .same rfl rfl rfl
  case workerRetry w m err =>
    simp only [Pc.next] at h
    split at h
    · cases a <;> cases h
      · exact .buried m _ _ rfl rfl rfl rfl
      · exact .same rfl rfl rfl
    · cases h
      exact .same rfl rfl rfl
  case requeueAdd k m =>
    cases a <;> cases h
    · exact .queued m _ rfl rfl rfl rfl (.inr ⟨k, rfl⟩)
    · exact .same rfl rfl rfl
  case scheduleAdd j =>
    cases a with
    | fail err =>
      cases h
      exact .same rfl rfl rfl
    | ok now =>
      simp only [Pc.next] at h
      split at h <;> cases h
      · exact .same rfl rfl rfl
      · exact .queued _ now rfl rfl rfl rfl (.inl ⟨rfl, rfl⟩)
  case foreignAdd =>
    cases a <;> cases h
    · exact .foreign _ rfl rfl rfl
    · exact .same rfl rfl rfl
  case jobCall op =>
    cases h
    obtain ⟨r, l, hop, -⟩ := jobOp_eq (s := s) op
    exact .same (by rw [hop]) (by rw [hop]) (by rw [hop])
  case recoverNext rest start nx =>
    cases rest <;> simp only [Pc.next] at h
    · cases h
      exact .same rfl rfl rfl
    split at h
    · cases h
    · split at h <;> cases h <;> exact .same rfl rfl rfl
  case workerHandle w m => cases a <;> cases h <;> exact .same rfl rfl rfl
  case workerReport w m err =>
    cases err <;> cases h <;> exact .same (by simp) (by simp) (by simp)
  -- the rest touches the memory of the process only
  all_goals
    simp only [Pc.next, reject] at h
    repeat' split at h
    all_goals cases h
    all_goals exact .same (by simp) (by simp) (by simp)

/-! ## entries -/

/-- what a step from `pc` does to the entries of the execution stream -/
inductive Entries (s : State) (pc : Pc) (a : Ans) (s' : State) : Prop
  | same (hentries : s'.exec.entries = s.exec.entries) (hlast : s'.last = s.last ∨ ∃ now, s'.last = nextID s.last now)
  | queued (m : Message) (now : Int)
      (hentries : s'.exec.entries = s.exec.entries ++ [⟨nextID s.last now, marshal m, false⟩])
      (hlast : s'.last = nextID s.last now)
      (hlog : s'.log = .queued m (nextID s.last now) :: s.log)
      (hsrc : m.origin = s.calls ∧ s'.calls = s.calls + 1 ∨ ∃ k, pc = .requeueAdd k m)
  | foreign (now : Int) (hentries : s'.exec.entries = s.exec.entries ++ [⟨nextID s.last now, .malformed, false⟩])
      (hlast : s'.last = nextID s.last now)
  | removed (id : ID) (hpc : pc.removes = some id)
      (hentries : s'.exec.entries = (s.exec.delete id).entries) (hlast : s'.last = s.last)
      (ha : ∃ now, a = .ok now)

theorem Change.entries (h : Change cfg s pc a s') : Entries s pc a s' := by
  cases h with
  | same hx _ hl => exact .same (by rw [hx]) (.inl hl)
  | queued m now hx _ hl hlog hsrc => exact .queued m now (by rw [hx]; rfl) hl hlog hsrc
  | foreign now hx _ hl => exact .foreign now (by rw [hx]; rfl) hl
  | buried m reason now hx _ hl => exact .same (by rw [hx]) (.inr ⟨now, hl⟩)
  | grouped hx _ hl => exact .same (by rw [hx, createGroup_entries]) (.inl hl)
  | read y now hx _ hl =>
    obtain ⟨g, -, ⟨-, hx⟩ | ⟨pre, y, post, -, -, -, -, -, hx⟩⟩ := readGroup_one hx
    · exact .same (by rw [hx]) (.inl hl)
    · exact .same (by rw [hx]) (.inl hl)
  | claimed start nx es now hx _ hl =>
    refine .same ?_ (.inl hl)
    have := autoClaim_entries (s := s.exec) cfg.streams.group "consumer-recovery" cfg.visibilityTimeout start 10 now
    rwa [hx] at this
  | acked id hx _ hl => exact .same (by rw [hx, ack_entries]) (.inl hl)
  | removed id hpc hx _ hl ha => exact .removed id hpc (by rw [hx]) hl ha

section
variable (h : pc.next cfg s a = some (pc', s'))
include h

/-- **Every entry stays where it is**; it is marked deleted by a removal only -/
theorem next_entries {e : Entry Fields}
    (he : e ∈ s.exec.entries) : ∃ x ∈ s'.exec.entries, x.id = e.id ∧ x.fields = e.fields ∧
      (x.deleted = e.deleted ∨ pc.removes = some e.id) := by
  cases (next_change h).entries with
  | same hx => exact ⟨e, hx ▸ he, rfl, rfl, .inl rfl⟩
  | queued m now hx | foreign now hx =>
    exact ⟨e, hx ▸ mem_append_left _ he, rfl, rfl, .inl rfl⟩
  | removed id hpc hx =>
    rw [hx]
    refine ⟨_, mem_delete.mpr ⟨e, he, rfl⟩, ?_⟩
    by_cases hid : e.id = id
    · rw [if_pos hid]
      exact ⟨rfl, rfl, .inr (hid ▸ hpc)⟩
    · rw [if_neg hid]
      exact ⟨rfl, rfl, .inl rfl⟩

theorem next_dlq {e : Entry Fields}
    (he : e ∈ s.dlq.entries) : e ∈ s'.dlq.entries := by
  cases next_change h with
  | buried m reason now _ hx =>
    rw [hx]
    exact mem_append_left _ he
  | same _ hx | queued m now _ hx | foreign now _ hx | grouped _ hx | read y now _ hx
  | claimed start nx es now _ hx | acked id _ hx | removed id _ _ hx => exact hx ▸ he

theorem next_ordered (ho : Ordered s.exec.entries s.last) :
    Ordered s'.exec.entries s'.last := by
  cases (next_change h).entries with
  | same hx hl =>
    rw [hx]
    rcases hl with hl | ⟨now, hl⟩
    · rw [hl]
      exact ho
    · rw [hl]
      exact ho.issue now
  | queued m now hx hl | foreign now hx hl =>
    rw [hx, hl]
    exact ho.add _ now
  | removed id _ hx hl =>
    rw [hx, hl]
    exact ho.delete id

end

/-! ## memory -/

/-- what a step from `pc` does to the channels of the workers, to the timers and to the cached
identifiers -/
inductive Memory (s : State) (pc pc' : Pc) (s' : State) : Prop
  | same (hch : s'.jobCh = s.jobCh) (ht : s'.timers = s.timers) (hid : s'.streamIDs = s.streamIDs)
  | handed (w : String) (m : Message) (k : Cont) (hpc : pc = .submit w m k)
      (hch : s'.jobCh = update s.jobCh w (some m)) (ht : s'.timers = s.timers)
      (hid : s'.streamIDs = s.streamIDs)
  | taken (w : String) (m : Message) (hpc : pc = .workerTake w) (hm : s.jobCh w = some m)
      (hch : s'.jobCh = update s.jobCh w none) (ht : s'.timers = s.timers)
      (hid : s'.streamIDs = s.streamIDs)
  | waits (w : String) (m : Message) (err : String) (hpc : pc = .workerRetry w m err)
      (hch : s'.jobCh = s.jobCh) (ht : s'.timers = s.timers ++ [⟨m.retry, .waiting⟩])
      (hid : s'.streamIDs = s.streamIDs)
  | fires (k : Nat) (m : Message) (hpc : pc = .requeueTake k) (hm : s.timers[k]? = some ⟨m, .waiting⟩)
      (hch : s'.jobCh = s.jobCh) (ht : s'.timers = s.timers.set k ⟨m, .running⟩)
      (hid : s'.streamIDs = s.streamIDs)
  | ends (k : Nat) (m : Message) (st : TimerState) (hpc : pc = .requeueAdd k m ∧ st = .requeued ∨
        ∃ err, pc = .requeueBury k m err ∧ (st = .buried ∨ st = .lost))
      (hch : s'.jobCh = s.jobCh) (ht : s'.timers = s.timers.set k ⟨m, st⟩)
      (hid : s'.streamIDs = s.streamIDs)
  | stored (jobID : String) (id : ID) (hpc : pc = .scheduleStore jobID id)
      (hch : s'.jobCh = s.jobCh) (ht : s'.timers = s.timers)
      (hid : s'.streamIDs = update s.streamIDs jobID (some id))
  | forgot (jobID : String) (hch : s'.jobCh = s.jobCh) (ht : s'.timers = s.timers)
      (hid : s'.streamIDs = update s.streamIDs jobID none)

theorem next_memory (h : pc.next cfg s a = some (pc', s')) : Memory s pc pc' s' := by
  cases pc
  case submit w m k =>
    simp only [Pc.next] at h
    split at h <;> cases h
    exact .handed w m k rfl rfl rfl rfl
  case workerTake w =>
    simp only [Pc.next] at h
    split at h <;> cases h
    exact .taken w _ rfl ‹_› rfl rfl rfl
  case workerRetry w m err =>
    simp only [Pc.next] at h
    split at h
    · cases a <;> cases h <;> exact .same rfl rfl rfl
    · cases h
      exact .waits w m err rfl rfl rfl rfl
  case requeueTake k =>
    simp only [Pc.next] at h
    split at h <;> cases h
    exact .fires k _ rfl ‹_› rfl rfl rfl
  case requeueAdd k m =>
    cases a <;> cases h
    · exact .ends k m .requeued (.inl ⟨rfl, rfl⟩) rfl rfl rfl
    · exact .same rfl rfl rfl
  case requeueBury k m err =>
    cases a <;> cases h
    · exact .ends k m .buried (.inr ⟨err, rfl, .inl rfl⟩) rfl rfl rfl
    · exact .ends k m .lost (.inr ⟨err, rfl, .inr rfl⟩) rfl rfl rfl
  case scheduleStore jobID id =>
    cases h
    exact .stored jobID id rfl rfl rfl rfl
  case cancelDelete jobID id =>
    cases a <;> cases h
    · exact .forgot jobID rfl rfl rfl
    · exact .same rfl rfl rfl
  case forgetID jobID =>
    cases h
    exact .forgot jobID rfl rfl rfl
  case jobCall op =>
    cases h
    obtain ⟨r, l, hop, -⟩ := jobOp_eq (s := s) op
    exact .same (by rw [hop]) (by rw [hop]) (by rw [hop])
  case recoverNext rest start nx =>
    cases rest
    all_goals
      simp only [Pc.next] at h
      repeat' split at h
      all_goals cases h
      all_goals exact .same rfl rfl rfl
  case workerReport w m err =>
    cases err <;> cases h <;> exact .same (by simp) (by simp) (by simp)
  all_goals cases a
  all_goals simp only [Pc.next, reject, State.enqueue, State.bury] at h
  all_goals repeat' split at h
  all_goals cases h
  all_goals exact .same (by simp) (by simp) (by simp)

theorem Memory.chan (h : Memory s pc pc' s') {w : String} {m : Message}
    (hm : s'.jobCh w = some m) : s.jobCh w = some m ∨ ∃ k, pc = .submit w m k := by
  cases h with
  | handed v n k hpc hch =>
    rw [hch, update_apply] at hm
    split at hm
    · next hv =>
      cases hm
      exact .inr ⟨k, hv ▸ hpc⟩
    · exact .inl hm
  | taken v n hpc _ hch =>
    rw [hch, update_apply] at hm
    split at hm
    · cases hm
    · exact .inl hm
  | same hch | waits v n err hpc hch | fires k n hpc _ hch | ends k n st hpc hch
  | stored j id hpc hch | forgot j hch => exact .inl (hch ▸ hm)

theorem Memory.timer (h : Memory s pc pc' s') {t : Timer} (ht : t ∈ s'.timers) : (∃ x ∈ s.timers, x.msg = t.msg) ∨
      ∃ m, pc.message = some m ∧ (t.msg = m ∨ t.msg = m.retry) := by
  cases h with
  | waits w n err hpc _ hx =>
    rw [hx] at ht
    rcases mem_append.mp ht with ht | ht
    · exact .inl ⟨t, ht, rfl⟩
    · rw [mem_singleton.mp ht]
      exact .inr ⟨n, by rw [hpc]; rfl, .inr rfl⟩
  | fires k n hpc hm _ hx =>
    rw [hx] at ht
    rcases mem_or_eq_of_mem_set ht with ht | rfl
    · exact .inl ⟨t, ht, rfl⟩
    · exact .inl ⟨_, mem_of_getElem? hm, rfl⟩
  | ends k n st hpc _ hx =>
    rw [hx] at ht
    rcases mem_or_eq_of_mem_set ht with ht | rfl
    · exact .inl ⟨t, ht, rfl⟩
    · refine .inr ⟨n, ?_, .inl rfl⟩
      rcases hpc with ⟨hpc, -⟩ | ⟨err, hpc, -⟩ <;> rw [hpc] <;> rfl
  | same _ hx | handed w n k hpc _ hx | taken w n hpc _ _ hx | stored j id hpc _ hx
  | forgot j _ hx => exact .inl ⟨t, hx ▸ ht, rfl⟩

theorem Memory.cache (h : Memory s pc pc' s') {j : String} {id : ID}
    (hj : s'.streamIDs j = some id) : s.streamIDs j = some id ∨ pc.caches = some (j, id) := by
  cases h with
  | stored i sid hpc _ _ hx =>
    rw [hx, update_apply] at hj
    split at hj
    · next hi =>
      cases hj
      exact .inr (by rw [hpc, hi]; rfl)
    · exact .inl hj
  | forgot i _ _ hx =>
    rw [hx, update_apply] at hj
    split at hj
    · cases hj
    · exact .inl hj
  | same _ _ hx | handed w n k hpc _ _ hx | taken w n hpc _ _ _ hx | waits w n err hpc _ _ hx
  | fires k n hpc _ _ _ hx | ends k n st hpc _ _ hx => exact .inl (hx ▸ hj)

/-! ## history -/

/-- what a step from `pc` may put on record -/
def Emits (cfg : Config) (pc : Pc) (s' : State) : Obs → Prop
  | .queued m id => ∃ e ∈ s'.exec.entries, e.id = id ∧ e.fields = marshal m
  | .handed m => ∃ w k, pc = .submit w m k
  | .handled m => ∃ w, pc = .workerHandle w m
  | .retried m => ∃ w err, pc = .workerRetry w m err
  | .dead m => pc.message = some m ∧
      ∃ e ∈ s'.dlq.entries, ∃ reason, e.fields = marshal (m.bury reason) ∧ e.deleted = false
  | .rejected m => pc.message = some m
  | .dropped id => ∃ w m, pc = .workerBegin w m ∧ m.streamID = id
  | .delivered id => ∃ g, s'.exec.groups cfg.streams.group = some g ∧ ∃ p ∈ g.pending, p.id = id
  | .cancelled _ => True
  | .crashed => False

/-- the message a thread works on; it is to be settled -/
def Pc.held : Pc → Option Message
  | .recoverCount _ m _ => some m
  | .recoverPoison _ m _ _ => some m
  | .dispatchGet _ m _ => some m
  | .dispatchReserve _ m _ => some m
  | .dispatchAssign _ m _ => some m
  | .dispatchMark _ m _ => some m
  | .rollbackState _ m _ => some m
  | .rollbackJob _ m _ => some m
  | .submit _ m _ => some m
  | .workerBegin _ m => some m
  | .workerStarted _ m => some m
  | .workerHandle _ m => some m
  | .workerSettle _ m (some _) => some m
  | .workerClear _ m (some _) => some m
  | .workerReport _ m (some _) => some m
  | .workerRetry _ m _ => some m
  | _ => none

def Pc.requeues : Pc → Option (Nat × Message)
  | .requeueAdd k m => some (k, m)
  | .requeueBury k m _ => some (k, m)
  | _ => none

/-- what it puts on record is about the message its thread works on -/
def Speaks (s : State) (pc : Pc) : Obs → Prop
  | .queued m _ => m.origin = s.calls ∨ ∃ k, pc.requeues = some (k, m)
  | .delivered _ => True
  | .handed m => pc.held = some m
  | .dropped id => ∃ m, pc.held = some m ∧ m.streamID = id
  | .handled m => pc.held = some m
  | .retried m => pc.held = some m
  | .dead m => pc.held = some m ∨ ∃ k, pc.requeues = some (k, m)
  | .rejected m => pc.held = some m
  | .cancelled _ => True
  | .crashed => False

theorem tryWorkers_calls {r : Option Workers} : s.calls ≤ (s.tryWorkers r).calls := by
  rw [(tryWorkers_rest r).2.2.2.2]

theorem tryMark_calls {id : String} {t : Exec.State} {f : Exec.Job → Exec.Job} :
    s.calls ≤ (s.tryMark id t f).calls := by
  rw [(tryMark_rest id t f).2.2.2.2]

section
variable (h : pc.next cfg s a = some (pc', s'))
include h

/-- **The history grows by what the step may put on record.** -/
theorem next_records : s.calls ≤ s'.calls ∧
    ∃ l, s'.log = l ++ s.log ∧ ∀ o ∈ l, Emits cfg pc s' o ∧ Speaks s pc o := by
  have hnone : s'.log = s.log → s.calls ≤ s'.calls → s.calls ≤ s'.calls ∧
      ∃ l, s'.log = l ++ s.log ∧ ∀ o ∈ l, Emits cfg pc s' o ∧ Speaks s pc o :=
    fun hl hc => ⟨hc, [], hl, fun o ho => by cases ho⟩
  have hone : ∀ o, s'.log = o :: s.log → s.calls ≤ s'.calls → Emits cfg pc s' o ∧ Speaks s pc o → s.calls ≤ s'.calls ∧
      ∃ l, s'.log = l ++ s.log ∧ ∀ o ∈ l, Emits cfg pc s' o ∧ Speaks s pc o :=
    fun o hl hc ho => ⟨hc, [o], hl, fun o' ho' => mem_singleton.mp ho' ▸ ho⟩
  have hlast : ∀ {es : List (Entry Fields)} {e : Entry Fields}, e ∈ es ++ [e] :=
    mem_append_right _ (mem_singleton_self _)
  cases pc
  case jobCall op =>
    obtain ⟨r, l, hop, hl⟩ := jobOp_eq (s := s) op
    simp only [Pc.next, hop] at h
    cases h
    rcases hl with rfl | ⟨id, rfl⟩
    · exact hnone rfl (Nat.le_refl _)
    · exact hone (.cancelled id) rfl (Nat.le_refl _) ⟨trivial, trivial⟩
  case recoverClaim start =>
    rcases next_recoverClaim h with ⟨-, rfl⟩ | ⟨now, nx, es, x, -, hc, rfl, -⟩
    · exact hnone rfl (Nat.le_refl _)
    refine ⟨Nat.le_refl _, _, rfl, fun o ho => ?_⟩
    obtain ⟨e, he, rfl⟩ := mem_map.mp ho
    rcases autoClaim_spec hc with ⟨-, rfl, -⟩ | ⟨g, g', -, hx, hcl⟩
    · cases he
    obtain ⟨q, -, -, p, hp, hid, -⟩ := hcl.counts e he
    exact ⟨⟨g', by rw [hx]; exact update_self .., p, hp, hid⟩, trivial⟩
  case fetchRead w =>
    rcases next_fetchRead h with ⟨-, rfl⟩ | ⟨now, e, x, -, hr, rfl, -⟩
    · exact hnone rfl (Nat.le_refl _)
    obtain ⟨g, -, ⟨⟨⟩, -⟩ | ⟨pre, y, post, -, ⟨⟩, -, -, -, rfl⟩⟩ := readGroup_one hr
    exact hone _ rfl (Nat.le_refl _) ⟨⟨_, update_self .., _, mem_cons_self .., rfl⟩, trivial⟩
  case recoverNext rest start nx =>
    cases rest
    all_goals
      simp only [Pc.next] at h
      repeat' split at h
      all_goals cases h
      all_goals exact hnone rfl (Nat.le_refl _)
  case workerReport w m err => cases err <;> cases h <;> exact hnone (tryMark_log ..) tryMark_calls
  case rollbackJob w m k =>
    cases h
    exact hone (.rejected m) (congrArg (Obs.rejected m :: ·) (tryWorkers_log _)) tryWorkers_calls ⟨rfl, rfl⟩
  all_goals cases a
  all_goals simp only [Pc.next, reject, State.enqueue, State.bury] at h
  all_goals repeat' split at h
  all_goals cases h
  all_goals first
    | exact hnone rfl (Nat.le_refl _)
    | exact hnone (tryWorkers_log _) tryWorkers_calls
    | exact hnone (tryMark_log ..) tryMark_calls
    | exact hone _ rfl (Nat.le_refl _) ⟨trivial, trivial⟩
    | exact hone _ rfl (Nat.le_refl _) ⟨rfl, rfl⟩
    | exact hone _ rfl (Nat.le_refl _) ⟨⟨_, rfl⟩, rfl⟩
    | exact hone _ rfl (Nat.le_refl _) ⟨⟨_, _, rfl⟩, rfl⟩
    | exact hone _ rfl (Nat.le_refl _) ⟨⟨_, _, rfl, rfl⟩, _, rfl, rfl⟩
    | exact hone _ rfl (Nat.le_succ _) ⟨⟨_, hlast, rfl, rfl⟩, .inl rfl⟩
    | exact hone _ rfl (Nat.le_refl _) ⟨⟨_, hlast, rfl, rfl⟩, .inr ⟨_, rfl⟩⟩
    | exact hone _ rfl (Nat.le_refl _) ⟨⟨rfl, _, hlast, _, rfl, rfl⟩, .inl rfl⟩
    | exact hone _ rfl (Nat.le_refl _) ⟨⟨rfl, _, hlast, _, rfl, rfl⟩, .inr ⟨_, rfl⟩⟩

theorem next_log : s.log <:+ s'.log := by
  obtain ⟨-, l, hl, -⟩ := next_records h
  exact ⟨l, hl.symm⟩

theorem next_obs {o : Obs} (ho : o ∈ s'.log) :
    o ∈ s.log ∨ Emits cfg pc s' o := by
  obtain ⟨-, l, hl, hnew⟩ := next_records h
  rw [hl, mem_append] at ho
  exact ho.elim (fun ho => .inr (hnew o ho).1) .inl

end

end

end Queue
