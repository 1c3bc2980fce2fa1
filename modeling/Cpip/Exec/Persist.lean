import Cpip.Lib.Debt
import Cpip.Exec.Steps

/-!
# Execution orchestrator: the registry and the store

* `Job.view`  what the store and the registry have to agree on;
* `store_agrees`  **the store holds the jobs of the registry once all calls have returned**.
-/

namespace Exec

open Pool Lts
open Function (update_of_ne update_self)

def Job.view (j : Job) : State × Outcome × Nat := (j.state, j.outcome, j.retryCount)

def Agree (s : Orchestrator) (id : String) : Prop :=
  (s.store id).map Job.view = (s.reg id).map Job.view

def Current (id : String) (snap : Job) (x : Option Job) : Prop :=
  snap.id = id ∧ ∃ j ∈ x, j.view = snap.view

def Can (t : State) (x : Option Job) : Prop := ∃ j ∈ x, canTransition j.state t = true

def Is (t : State) (x : Option Job) : Prop := ∃ j ∈ x, j.state = t

/-- the call owes the store the record of job `id`, which is `x` in the registry: it is bound to
write what the registry holds -/
def Pc.Owes (id : String) (x : Option Job) : Pc → Prop
  | .validated j => j.id = id ∧ Is .pending x
  | .createContext via i _ => i = id ∧ Is via.source x
  | .queueMark via i => i = id ∧ Is via.source x
  | .queueGet _ i => i = id ∧ Can .failed x
  | .schedule _ i snap => i = id ∧ Can .failed x ∧ Current id snap x
  | .failMark i => i = id ∧ Can .failed x
  | .failGet i => i = id ∧ x.isSome
  | .failRelease i snap => i = id ∧ Current id snap x
  | .persist snap _ => Current id snap x
  | .cancelContext i => i = id ∧ x.isSome
  | .cancelSchedule i => i = id ∧ x.isSome
  | .cancelGet i => i = id ∧ x.isSome
  | .cancelRelease i snap => i = id ∧ Current id snap x
  | .retryRead i => i = id ∧ Is .retrying x
  | .advanceGet _ i => i = id ∧ x.isSome
  | .archiveRemove i _ => i = id
  | .archiveRelease i _ _ => i = id ∧ x = none
  | .archiveSink i _ => i = id ∧ x = none
  | .archiveDelete i _ => i = id ∧ x = none
  | _ => False

/-- the call owes job `id` in the present state -/
def Owes (s : Orchestrator) (pc : Pc) (id : String) : Prop := pc.Owes id (s.reg id)

def Pc.writes : Pc → Option String
  | .persist snap _ => some snap.id
  | .archiveDelete id _ => some id
  | _ => none

variable (s : Sys Orchestrator Pc)

/-- a record is written by a call that owes it, or while another one does -/
def Prompt : Act Call Ans → Prop
  | .step i _ => ∀ pc ∈ s.pool i, ∀ id ∈ pc.writes, Owes s.shared pc id ∨ Backed Owes s i id
  | _ => True

section
variable {d : Deps} {sys : Sys Orchestrator Pc} {s' : Orchestrator} {i : Nat} {pc pc' : Pc}
  {a : Ans}

/-! ## kinds of steps -/

variable {id : String}

theorem agree_congr {s : Orchestrator} (hr : s'.reg id = s.reg id) (hs : s'.store id = s.store id) (h : Agree s id) :
    Agree s' id := by
  unfold Agree at *
  rw [hr, hs]
  exact h

theorem owes_congr {s : Orchestrator} (hr : s'.reg id = s.reg id) (h : Owes s pc id) : Owes s' pc id := by
  unfold Owes at *
  rw [hr]
  exact h

theorem pays_quiet (hr : s'.reg = sys.shared.reg) (hs : s'.store = sys.shared.store)
    (ho : ∀ id, pc.Owes id (sys.shared.reg id) → pc'.Owes id (sys.shared.reg id)) :
    Pays Agree Owes sys i pc pc' s' id := by
  refine .leaves (agree_congr (by rw [hr]) (by rw [hs])) (fun h => .inr ?_) fun u => owes_congr (by rw [hr])
  unfold Owes
  rw [hr]
  exact ho id h

theorem pays_moved {j : String} (hr : ∀ id, id ≠ j → s'.reg id = sys.shared.reg id) (hs : s'.store = sys.shared.store)
    (ho : ∀ id x, pc.Owes id x → id = j) (hown : pc'.Owes j (s'.reg j)) : Pays Agree Owes sys i pc pc' s' id := by
  by_cases hid : id = j
  · subst hid
    exact .settles (.inr hown)
  · refine .leaves (agree_congr (hr id hid) (by rw [hs])) (fun h => absurd (ho id _ h) hid)
      fun u => owes_congr (hr id hid)

theorem pays_written {j : String} (hr : s'.reg = sys.shared.reg)
    (hs : ∀ id, id ≠ j → s'.store id = sys.shared.store id) (ho : ∀ id x, pc.Owes id x → id = j)
    (hw : pc.Owes j (sys.shared.reg j) → Agree s' j) (hg : Owes sys.shared pc j ∨ Backed Owes sys i j) :
    Pays Agree Owes sys i pc pc' s' id := by
  by_cases hid : id = j
  · subst hid
    rcases hg with hg | hg
    · exact .settles (.inl (hw hg))
    · exact .backed hg fun u => owes_congr (by rw [hr])
  · refine .leaves (agree_congr (by rw [hr]) (hs id hid)) (fun h => absurd (ho id _ h) hid)
      fun u => owes_congr (by rw [hr])

/-! ## transitions and reads -/

variable {t : State} {r : Registry}

theorem transition_of_can {f : Job → Job} {e : Err} (h : r.transition id t f = .error e) : ¬ Can t (r id) := by
  rintro ⟨j, hj, hc⟩
  rw [Registry.transition_error h j hj] at hc
  cases hc

theorem transition_reg {r' : Registry} {f : Job → Job} (h : r.transition id t f = .ok r') :
    (∀ i, i ≠ id → r' i = r i) ∧ ∃ j ∈ r' id, ∃ x : Job, j = x.moved t f := by
  obtain ⟨j, -, -, rfl⟩ := Registry.transition_ok h
  exact ⟨fun i hi => update_of_ne hi .., _, update_self .., j, rfl⟩

theorem current_get (hk : Keyed r) (h : (r id).isSome) : Current id (r.get id).1 (r id) := by
  obtain ⟨j, hj⟩ := Option.isSome_iff_exists.mp h
  rw [Registry.get_of_some hj]
  exact ⟨hk id j hj, j, hj, rfl⟩

theorem Can.isSome {x : Option Job} (h : Can t x) : x.isSome := by
  obtain ⟨j, hj, -⟩ := h
  rw [Option.mem_def.mp hj]
  rfl

theorem source_queued (via : Via) : canTransition via.source .queued = true := by
  cases via <;> rfl

theorem Is.can {u : State} {x : Option Job} (h : Is t x) (hc : canTransition t u = true) : Can u x := by
  obtain ⟨j, hj, rfl⟩ := h
  exact ⟨j, hj, hc⟩

/-- **A prompt step pays.** -/
theorem pays_next (hk : Keyed sys.shared.reg) (hp : sys.pool i = some pc)
    (hg : Prompt sys (.step i a)) (h : pc.next d sys.shared a = some (pc', s')) (id : String) :
    Pays Agree Owes sys i pc pc' s' id := by
  have hg : ∀ j ∈ pc.writes, Owes sys.shared pc j ∨ Backed Owes sys i j := hg pc hp
  -- a transition that fails was not owed
  have hstuck : ∀ {t f e}, ∀ j, sys.shared.reg.transition j t f = .error e → ∀ id, j = id →
      Can t (sys.shared.reg id) → pc'.Owes id (sys.shared.reg id) := by
    rintro t f e j hj id rfl hc
    exact absurd hc (transition_of_can hj)
  cases pc
  case add req j =>
    simp only [Pc.next] at h
    split at h
    · rename_i r hr
      cases h
      unfold Registry.add at hr
      split at hr
      · cases hr
      cases hr
      exact pays_moved (j := j) (fun id hid => update_of_ne hid ..) rfl
        (fun id x h => h.elim) ⟨rfl, _, update_self .., rfl⟩
    · cases h
      exact pays_quiet rfl rfl (fun id h => h.elim)
  case validated j =>
    simp only [Pc.next] at h
    split at h
    · rename_i r hr
      cases h
      obtain ⟨hoth, x, hx, y, rfl⟩ := transition_reg hr
      exact pays_moved hoth rfl (fun id x h => h.1.symm) ⟨rfl, _, hx, rfl⟩
    · rename_i e hr
      cases h
      exact pays_quiet rfl rfl (fun id h => hstuck _ hr id h.1 (h.2.can rfl))
  case validate req j | createContext via j snap | cancelContext j | cancelSchedule j | retryRead j
      | archiveSink j snap =>
    cases a <;> cases h <;> exact pays_quiet rfl rfl (fun id h => h)
  case queueMark via j =>
    simp only [Pc.next] at h
    split at h
    · rename_i r hr
      cases h
      obtain ⟨hoth, x, hx, y, rfl⟩ := transition_reg hr
      exact pays_moved hoth rfl (fun id x h => h.1.symm) ⟨rfl, _, hx, rfl⟩
    · rename_i e hr
      cases h
      exact pays_quiet rfl rfl (fun id h => hstuck _ hr id h.1 (h.2.can (source_queued via)))
  case queueGet via j =>
    cases h
    refine pays_quiet rfl rfl (fun id h => ?_)
    obtain ⟨rfl, hc⟩ := h
    exact ⟨rfl, hc, current_get hk hc.isSome⟩
  case schedule via j snap =>
    simp only [Pc.next] at h
    split at h
    · cases h
      exact pays_quiet rfl rfl (fun id h => h.2.2)
    · cases h
      exact pays_quiet rfl rfl (fun id h => ⟨h.1, h.2.1⟩)
  case failMark j =>
    simp only [Pc.next] at h
    split at h
    · rename_i r hr
      cases h
      obtain ⟨hoth, x, hx, y, rfl⟩ := transition_reg hr
      exact pays_moved hoth rfl (fun id x h => h.1.symm) ⟨rfl, Option.isSome_of_mem hx⟩
    · rename_i e hr
      cases h
      exact pays_quiet rfl rfl (fun id h => hstuck _ hr id h.1 h.2)
  case failGet j | cancelGet j =>
    cases h
    refine pays_quiet rfl rfl (fun id h => ?_)
    obtain ⟨rfl, hc⟩ := h
    exact ⟨rfl, current_get hk hc⟩
  case failRelease j snap | cancelRelease j snap =>
    cases h
    exact pays_quiet rfl rfl (fun id h => h.2)
  case persist snap k =>
    cases h
    refine pays_written (j := snap.id) rfl (fun id hid => update_of_ne hid ..)
      (fun id x h => h.1.symm) (fun h => ?_) (hg _ rfl)
    obtain ⟨-, x, hx, hv⟩ := h
    show ((sys.shared.store.save snap) snap.id).map Job.view = (sys.shared.reg snap.id).map Job.view
    rw [Option.mem_def.mp hx, Repository.save, update_self]
    exact congrArg some hv.symm
  case cancelMark j | advance m j =>
    simp only [Pc.next] at h
    split at h
    · rename_i r hr
      cases h
      obtain ⟨hoth, x, hx, y, rfl⟩ := transition_reg hr
      exact pays_moved hoth rfl (fun id x h => h.elim) ⟨rfl, Option.isSome_of_mem hx⟩
    all_goals
      cases h
      exact pays_quiet rfl rfl (fun id h => h.elim)
  case retryGet j | assign m j w | releaseContext j | stopContext j =>
    simp only [Pc.next] at h
    repeat' split at h
    all_goals
      cases h
      exact pays_quiet rfl rfl (fun id h => h.elim)
  case retryMark j =>
    simp only [Pc.next] at h
    split at h
    · rename_i r hr
      cases h
      obtain ⟨hoth, x, hx, y, rfl⟩ := transition_reg hr
      exact pays_moved hoth rfl (fun id x h => h.elim) ⟨rfl, _, hx, rfl⟩
    all_goals
      cases h
      exact pays_quiet rfl rfl (fun id h => h.elim)
  case advanceGet m j =>
    cases h
    refine pays_quiet rfl rfl (fun id h => ?_)
    obtain ⟨rfl, hc⟩ := h
    exact current_get hk hc
  case archiveMark j sink =>
    simp only [Pc.next] at h
    split at h
    · rename_i r hr
      cases h
      exact pays_moved (transition_reg hr).1 rfl (fun id x h => h.elim) rfl
    · cases h
      exact pays_quiet rfl rfl (fun id h => h.elim)
  case archiveRemove j sink =>
    cases h
    exact pays_moved (fun id hid => update_of_ne hid ..) rfl (fun id x h => Eq.symm h) ⟨rfl, update_self ..⟩
  case archiveRelease j sink snap =>
    cases h
    refine pays_quiet rfl rfl (fun id h => ?_)
    cases sink <;> exact h
  case archiveDelete j snap =>
    cases h
    refine pays_written (j := j) rfl (fun id hid => update_of_ne hid ..)
      (fun id x h => h.1.symm) (fun h => ?_) (hg _ rfl)
    show ((sys.shared.store.delete j) j).map Job.view = (sys.shared.reg j).map Job.view
    rw [h.2, Repository.delete, update_self]
  case returned res err => cases h

/-! ## runs -/

/-- **Along every prompt run the store agrees with the registry once all calls have returned**, in states, outcomes
and retry counts. -/
theorem store_agrees {ls : List (Act Call Ans)} (hc : Along (orchestrator d).next Prompt (idle {}) ls)
    (hr : run (orchestrator d).next (idle {}) ls = some sys) (hret : Returned ls sys) (id : String) :
    (sys.shared.store id).map Job.view = (sys.shared.reg id).map Job.view := by
  have h0 : Owed Agree Owes (idle {}) := owed_idle fun id => rfl
  have howed : Owed Agree Owes sys := by
    refine owed_run (P := orchestrator d) (C := fun s l => Keyed s.shared.reg ∧ Prompt s l)
      (fun s i a t t' m hC hp hs => ?_) h0 (along_and (keyed_along ls) hc) hr
    exact pays_next hC.1 hp hC.2 hs
  refine howed.fine fun i t ht ho => ?_
  obtain ⟨res, err, rfl⟩ := hret.thread hr ht
  exact ho

end

instance (id : String) (snap : Job) (x : Option Job) : Decidable (Current id snap x) := by
  unfold Current
  infer_instance

instance (t : State) (x : Option Job) : Decidable (Can t x) := by
  unfold Can
  infer_instance

instance (t : State) (x : Option Job) : Decidable (Is t x) := by
  unfold Is
  infer_instance

instance (id : String) (x : Option Job) (pc : Pc) : Decidable (pc.Owes id x) := by
  unfold Pc.Owes
  split <;> infer_instance

instance (s : Orchestrator) (pc : Pc) (id : String) : Decidable (Owes s pc id) := by
  unfold Owes
  infer_instance

/-- every record is written by a call that owes it -/
def Timely : Act Call Ans → Prop
  | .step i _ => ∀ pc ∈ s.pool i, ∀ id ∈ pc.writes, Owes s.shared pc id
  | _ => True

instance (s : Sys Orchestrator Pc) (l : Act Call Ans) : Decidable (Timely s l) := by
  unfold Timely
  rcases l with _ | _ <;> infer_instance

theorem Timely.prompt (l : Act Call Ans) (h : Timely s l) : Prompt s l := by
  cases l with
  | spawn i c => trivial
  | step i a => exact fun pc hpc id hid => .inl (h pc hpc id hid)

def timelyRun : List (Act Call Ans) :=
  call 0 (.submitted "a") 5 ++ call 1 (.submitted "b") 8 ++ steps 0 3 ++
    call 2 (.mark (.dispatched "w") "a") 3 ++ call 3 (.cancel "b") 6 ++ steps 2 1 ++
    call 4 (.mark .started "a") 3 ++ call 5 (.mark .failed "a") 3 ++ call 6 (.retry "a") 8 ++
    call 7 (.archive "b" true) 5 ++ call 8 (.cancel "a") 6

theorem store_agrees_timelyRun : Along (orchestrator {}).next Prompt (idle {}) timelyRun ∧
      ∃ sys ∈ run (orchestrator {}).next (idle {}) timelyRun, Returned timelyRun sys ∧
        (sys.shared.store "a").map Job.view = some (.cancelled, .cancelled, 1) ∧
        ∀ id, (sys.shared.store id).map Job.view = (sys.shared.reg id).map Job.view := by
  have hend : ∃ sys ∈ run (orchestrator {}).next (idle {}) timelyRun, Returned timelyRun sys ∧
      (sys.shared.store "a").map Job.view = some (.cancelled, .cancelled, 1) := by
    decide +kernel
  obtain ⟨sys, hr, hret, hv⟩ := hend
  refine ⟨?hc, sys, hr, hret, hv, store_agrees ?hc hr hret⟩
  refine along_mono Timely.prompt _ _ ?_
  decide +kernel

def lateSubmitRun : List (Act Call Ans) :=
  call 0 (.submitted "a") 7 ++ call 1 (.mark (.dispatched "w") "a") 4 ++ steps 0 1

/-- the job is archived before the call that cancelled it saves it -/
def lateCancelRun : List (Act Call Ans) :=
  call 0 (.submitted "a") 8 ++ call 1 (.cancel "a") 5 ++ call 2 (.archive "a" true) 5 ++ steps 1 1

/-- **A save that comes late leaves a stale record** of a job that went on, or was removed. -/
theorem stale_save : (∃ sys ∈ run (orchestrator {}).next (idle {}) lateSubmitRun, Returned lateSubmitRun sys ∧
      (sys.shared.reg "a").map Job.view = some (.dispatched, .none, 0) ∧
      (sys.shared.store "a").map Job.view = some (.queued, .none, 0)) ∧
    ∃ sys ∈ run (orchestrator {}).next (idle {}) lateCancelRun, Returned lateCancelRun sys ∧
      sys.shared.reg "a" = none ∧
      (sys.shared.store "a").map Job.view = some (.cancelled, .cancelled, 0) := by
  refine ⟨?_, ?_⟩ <;> decide +kernel

end Exec
