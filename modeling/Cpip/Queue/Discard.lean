import Cpip.Queue.Held

/-!
# Queue: why entries are taken off the execution stream

* `discards_excused`  **every entry that a loop or a worker takes off the stream is excused**.
-/

namespace Queue

open Pool Lts Config

/-- the entry whose message this observation settles -/
def Obs.settles : Obs → Option ID
  | .handled m => some m.streamID
  | .retried m => some m.streamID
  | .dead m => some m.streamID
  | _ => none

def Fields.Void (log : List Obs) : Fields → Prop
  | .malformed => True
  | .data m => .cancelled m.jobID ∈ log

/-- the entry may be taken off the stream -/
def Excused (s : State) (id : ID) : Prop :=
  (∃ o ∈ s.log, o.settles = some id) ∨ ∃ e ∈ s.exec.entries, e.id = id ∧ e.fields.Void s.log

instance (log : List Obs) (f : Fields) : Decidable (f.Void log) := by
  unfold Fields.Void
  split <;> infer_instance

instance (s : State) (id : ID) : Decidable (Excused s id) := by
  unfold Excused
  infer_instance

/-! ## the condition -/

/-- the command of the step succeeds; the handler may return an error -/
def Pc.Succeeds (a : Ans) : Pc → Prop
  | .workerHandle _ _ => True
  | _ =>
    match a with
    | .ok _ => True
    | .fail _ => False

/-- the step of a dispatch goes through, or the job was cancelled -/
def Pc.Accepts (s : State) : Pc → Prop
  | .dispatchGet w m _ =>
    (s.workers w).map Worker.state = some .idle ∨ .cancelled m.jobID ∈ s.log
  | .dispatchReserve w m _ =>
    (s.workers w).map Worker.state = some .idle ∨ .cancelled m.jobID ∈ s.log
  | .dispatchAssign w m _ => (s.workers w).isSome = true ∨ .cancelled m.jobID ∈ s.log
  | .dispatchMark _ m _ =>
    (s.jobs m.jobID).map Exec.Job.state = some .queued ∨ .cancelled m.jobID ∈ s.log
  | _ => True

/-- no stream command fails -/
def Reliable (s : Sys State Pc) : Move Kind Ans → Prop
  | .act (.step i a) => ∀ pc ∈ s.pool i, pc.Succeeds a
  | _ => True

/-- every dispatch goes through, unless its job was cancelled -/
def Accepting (s : Sys State Pc) : Move Kind Ans → Prop
  | .act (.step i _) => ∀ pc ∈ s.pool i, pc.Accepts s.shared
  | _ => True

instance (a : Ans) (pc : Pc) : Decidable (pc.Succeeds a) := by
  induction pc using Pc.casesOn with
  | workerHandle w m => exact inferInstanceAs (Decidable True)
  | _ => exact match a with
    | .ok _ => inferInstanceAs (Decidable True)
    | .fail _ => inferInstanceAs (Decidable False)

instance (s : State) (pc : Pc) : Decidable (pc.Accepts s) := by
  unfold Pc.Accepts
  split <;> infer_instance

instance (s : Sys State Pc) (l : Move Kind Ans) : Decidable (Reliable s l) := by
  unfold Reliable
  split <;> infer_instance

instance (s : Sys State Pc) (l : Move Kind Ans) : Decidable (Accepting s l) := by
  unfold Accepting
  split <;> infer_instance

/-! ## what a thread knows about its message -/

/-- a dead-letter write succeeded, a rejected job was cancelled -/
def Reason.Fair (log : List Obs) : Reason → Prop
  | .rejected m => .cancelled m.jobID ∈ log
  | .poison _ sent => sent = true
  | .dead _ sent => sent = true
  | _ => True

/-- a thread takes an entry off the stream, or is about to, for a fair reason -/
def Pc.Fair (log : List Obs) : Pc → Prop
  | .ack _ why _ => why.Fair log
  | .delete _ why _ => why.Fair log
  | .rollbackState _ m _ => .cancelled m.jobID ∈ log
  | .rollbackJob _ m _ => .cancelled m.jobID ∈ log
  | _ => True

section
variable {cfg : Config} {s s' : State} {pc pc' : Pc} {a : Ans}

theorem Reason.Fair.mono {l l' : List Obs} {why : Reason} (hl : l ⊆ l') (h : why.Fair l) : why.Fair l' := by
  cases why with
  | rejected m => exact hl h
  | poison m sent | dead m sent => exact h
  | _ => trivial

theorem fair_other {t : Pc} (h : pc.next cfg s a = some (pc', s')) (ht : t.Fair s.log) : t.Fair s'.log := by
  have hl := (next_log h).subset
  cases t
  case ack id why k | delete id why k => exact Reason.Fair.mono hl ht
  case rollbackState w m k | rollbackJob w m k => exact hl ht
  all_goals trivial

theorem updateState_reserved {r : Workers} {w : String}
    (h : (r w).map Worker.state = some .idle) : r.updateState w .reserved ≠ none := by
  obtain ⟨x, hx, hi⟩ := Option.map_eq_some_iff.mp h
  simp [Workers.updateState, hx, hi, canTransitionWorker]

theorem transition_dispatched {r : Exec.Registry} {id : String} {f : Exec.Job → Exec.Job}
    (h : (r id).map Exec.Job.state = some .queued) : ∃ r', r.transition id .dispatched f = .ok r' := by
  obtain ⟨j, hj, hq⟩ := Option.map_eq_some_iff.mp h
  simp [Exec.Registry.transition, hj, hq, Exec.canTransition]

/-- **The reasons of a thread stay fair.** -/
theorem fair_next (hL : pc.Fair s.log) (hs : pc.Succeeds a) (ha : pc.Accepts s)
    (h : pc.next cfg s a = some (pc', s')) : pc'.Fair s'.log := by
  have hkeep := fair_other h hL
  cases pc
  -- a dispatch that does not go through finds its job cancelled
  case dispatchGet w m k =>
    simp only [Pc.next, reject] at h
    rcases ha with ha | ha
    · obtain ⟨x, hx, hi⟩ := Option.map_eq_some_iff.mp ha
      simp only [hx, if_pos hi] at h
      cases h
      trivial
    · repeat' split at h
      all_goals cases h
      all_goals first
        | trivial
        | exact List.mem_cons_of_mem _ ha
  case dispatchReserve w m k =>
    simp only [Pc.next, reject] at h
    split at h
    · cases h
      trivial
    rename_i hn
    cases h
    rcases ha with ha | ha
    · exact absurd hn (updateState_reserved ha)
    · exact List.mem_cons_of_mem _ ha
  case dispatchAssign w m k =>
    simp only [Pc.next] at h
    split at h
    · cases h
      trivial
    rename_i hn
    cases h
    rcases ha with ha | ha
    · simp [Workers.updateCurrentJob, Option.isSome_iff_ne_none] at hn ha
      exact absurd hn ha
    · exact ha
  case dispatchMark w m k =>
    simp only [Pc.next] at h
    split at h
    · split at h
      · cases h
        trivial
      rename_i hn
      cases h
      rcases ha with ha | ha
      · obtain ⟨r', hr⟩ := transition_dispatched ha
        cases hn.symm.trans hr
      · exact ha
    · cases h
      trivial
  case rollbackState w m k =>
    cases h
    exact hkeep
  case rollbackJob w m k =>
    cases h
    have hc : Obs.cancelled m.jobID ∈ s.log := hL
    exact List.mem_cons_of_mem _ (by simpa using hc)
  case ack id why k => cases a <;> cases h <;> exact hkeep
  -- a dead-letter write succeeds
  case recoverPoison w m count k =>
    cases a <;> cases h
    · exact rfl
    · exact hs.elim
  case workerRetry w m err =>
    simp only [Pc.next] at h
    split at h
    · cases a <;> cases h
      · exact rfl
      · exact hs.elim
    · cases h
      trivial
  case workerReport w m err => cases err <;> cases h <;> trivial
  case delete id why k =>
    cases a <;> cases h <;> rcases k with ⟨w, k⟩ | ⟨w, _ | _⟩ <;> trivial
  case submit w m k =>
    simp only [Pc.next] at h
    split at h <;> cases h
    cases k <;> trivial
  case release w k =>
    cases h
    cases k <;> trivial
  case recoverNext rest start nx =>
    cases rest <;> simp only [Pc.next] at h
    · cases h
      split <;> trivial
    repeat' split at h
    all_goals cases h
    all_goals trivial
  all_goals cases a
  all_goals simp only [Pc.next] at h
  all_goals repeat' split at h
  all_goals cases h
  all_goals trivial

/-! ## runs -/

theorem excused_of_fair (hL : Holds s pc) (hR : Recorded s pc) (hF : pc.Fair s.log) {id : ID}
    {why : Reason} (hd : pc.discards = some (id, why)) : Excused s id := by
  have hpc : why.Fair s.log ∧ why.message = pc.message ∧ why.record = pc.record := by
    cases pc
    case ack i w k | delete i w k =>
      cases hd
      exact ⟨hF, rfl, rfl⟩
    all_goals cases hd
  obtain ⟨hF, hm, hrec⟩ := hpc
  have hdis := hL.discards id why hd
  cases why with
  | undecodable =>
    obtain ⟨e, he, hid, hf⟩ := hdis
    exact .inr ⟨e, he, hid, by rw [hf]; trivial⟩
  | rejected m =>
    obtain ⟨e, he, hid, x, hx, hal, -⟩ := hL.message m hm.symm
    refine .inr ⟨e, he, hid.trans hdis, ?_⟩
    rw [hx]
    show .cancelled x.jobID ∈ s.log
    rw [hal.job]
    exact hF
  | poison m sent | dead m sent =>
    cases (show sent = true from hF)
    exact .inl ⟨_, hR _ hrec.symm, congrArg some hdis⟩
  | handled m | retried m k => exact .inl ⟨_, hR _ hrec.symm, congrArg some hdis⟩

/-- **Along a reliable run whose dispatches are accepted, an entry that a loop or a worker takes off
the stream is excused.** -/
theorem discards_excused {sys : Sys State Pc} {ls : List (Move Kind Ans)}
    (hrel : Along (next cfg) Reliable (idle {}) ls) (hacc : Along (next cfg) Accepting (idle {}) ls)
    (hr : run (next cfg) (idle {}) ls = some sys) {i : Nat} {pc : Pc} {id : ID}
    {why : Reason} (hp : sys.pool i = some pc) (hd : pc.discards = some (id, why)) : Excused sys.shared id := by
  have hinv : Inv (fun _ => True) (fun s t => t.Fair s.log) (fun _ _ _ => True) sys := by
    refine inv_moves (P := queue cfg) (C := fun s l => Reliable s l ∧ Accepting s l)
      ⟨fun s i c _ _ => ?_, fun s i a t t' m hi hc hp hs => ?_⟩ (fun _ _ => trivial)
      (inv_idle trivial) (along_and hrel hacc) hr
    · refine ⟨?_, fun _ _ _ => ⟨trivial, trivial⟩⟩
      cases c <;> trivial
    exact keeps_each trivial (fair_next (hi.each i t hp) (hc.1 t hp) (hc.2 t hp) hs)
      fun j u _ hu => fair_other hs (hi.each j u hu)
  obtain ⟨hL, hR⟩ := (sound_run hr).each i pc hp
  exact excused_of_fair hL hR (hinv.each i pc hp) hd

def handledRun : List (Move Kind Ans) :=
  call 0 .start 1 ++ call 1 (.worker "w") 3 ++ submitted "j" ++ call 3 (.schedule { id := "j" }) 2 ++
    call 4 .fetch 7 ++ steps 1 7

theorem discards_excused_handledRun : Along (next default) Reliable (idle {}) handledRun ∧
      Along (next default) Accepting (idle {}) handledRun ∧
      ∃ sys ∈ run (next default) (idle {}) handledRun,
        ∃ pc ∈ sys.pool 1, ∃ d ∈ pc.discards, Excused sys.shared d.1 := by
  have hend : ∃ sys ∈ run (next default) (idle {}) handledRun,
      ∃ pc ∈ sys.pool 1, ∃ d ∈ pc.discards, d.1 = ⟨0, 1⟩ := by
    decide +kernel
  obtain ⟨sys, hr, pc, hp, d, hd, -⟩ := hend
  refine ⟨?hrel, ?hacc, sys, hr, pc, hp, d, hd, discards_excused ?hrel ?hacc hr hp hd⟩
  · decide +kernel
  · decide +kernel

/-- the monitor takes a worker offline after the loop has picked it -/
def lateWorkerRun : List (Move Kind Ans) :=
  call 0 .start 1 ++ call 1 (.worker "w") 3 ++ submitted "j" ++ call 3 (.schedule { id := "j" }) 2 ++
    call 4 .fetch 1 ++ call 5 (.offline "w") 1 ++ steps 4 2

/-- the handler runs longer than the visibility timeout, and the entry is reclaimed -/
def slowHandlerRun : List (Move Kind Ans) :=
  call 0 .start 1 ++ call 1 (.worker "w") 3 ++ call 2 (.worker "v") 3 ++ submitted "j" ++
    call 3 (.schedule { id := "j" }) 2 ++ call 4 .fetch 7 ++ steps 1 3 ++ call 5 .recovery 1 ++
    [.act (.step 5 (.ok 30000000000))] ++ steps 5 8

/-- the handler fails, and the requeued message finds its job in `Failed` -/
def failedJobRun : List (Move Kind Ans) :=
  call 0 .start 1 ++ call 1 (.worker "w") 3 ++ submitted "j" ++ call 3 (.schedule { id := "j" }) 2 ++
    call 4 .fetch 7 ++ steps 1 3 ++ [.act (.step 1 (.fail "exit status 1"))] ++ steps 1 9 ++
    call 6 (.requeue 0) 2 ++ steps 4 8

/-- **Entries are taken off the stream without an excuse**: a rejected dispatch counts as a cancellation. -/
theorem silent_discard : (Along (next default) Reliable (idle {}) lateWorkerRun ∧
      ∃ sys ∈ run (next default) (idle {}) lateWorkerRun,
        ∃ pc ∈ sys.pool 4, ∃ d ∈ pc.discards, ¬ Excused sys.shared d.1) ∧
    (Along (next default) Reliable (idle {}) slowHandlerRun ∧
      ∃ sys ∈ run (next default) (idle {}) slowHandlerRun,
        ∃ pc ∈ sys.pool 5, ∃ d ∈ pc.discards, ¬ Excused sys.shared d.1) ∧
    (Along (next default) Reliable (idle {}) failedJobRun ∧
      ∃ sys ∈ run (next default) (idle {}) failedJobRun,
        ∃ pc ∈ sys.pool 4, ∃ d ∈ pc.discards, ¬ Excused sys.shared d.1) := by
  refine ⟨⟨?_, ?_⟩, ⟨?_, ?_⟩, ?_, ?_⟩ <;> decide +kernel

end

end Queue
