import Cpip.Lib.Debt
import Cpip.Exec.Steps

/-!
# Execution orchestrator: what a cancelled job leaves behind

* `Clean`  a cancelled job has no entry in the scheduler and no context;
* `cancelled_clean`  **so it is once all calls of a watchful run have returned**.
-/

namespace Exec

open Pool Lts
open Function (update update_of_ne update_self)

inductive Leftover where
  | entry (id : String)
  | context (id : String)
deriving DecidableEq

def Leftover.id : Leftover → String
  | .entry id => id
  | .context id => id

def Leftover.there (s : Orchestrator) : Leftover → Bool
  | .entry id => s.sched.has id
  | .context id => (s.ctxMgr id).isSome

def Cancelled (s : Orchestrator) (id : String) : Prop := ∃ j ∈ s.reg id, j.state = .cancelled

def Clean (s : Orchestrator) (x : Leftover) : Prop := Cancelled s x.id → x.there s = false

/-- what a cancelling call is still to remove -/
def Pc.clears : Pc → List Leftover
  | .cancelContext id => [.entry id, .context id]
  | .cancelSchedule id => [.entry id, .context id]
  | .cancelGet id => [.context id]
  | .cancelRelease id _ => [.context id]
  | _ => []

def Clears (_ : Orchestrator) (pc : Pc) (x : Leftover) : Prop := x ∈ pc.clears

/-- what a step of a submission or a retry puts there -/
def Pc.makes : Pc → Option Leftover
  | .createContext _ _ j => some (.context j.id)
  | .schedule _ _ snap => some (.entry snap.id)
  | _ => none

variable (s : Sys Orchestrator Pc)

/-- nothing is made for a cancelled job, unless another call is still to remove it -/
def Watchful : Act Call Ans → Prop
  | .step i _ => ∀ pc ∈ s.pool i, ∀ x ∈ pc.makes, ¬ Cancelled s.shared x.id ∨ Backed Clears s i x
  | _ => True

section
variable {d : Deps} {sys : Sys Orchestrator Pc} {s s' : Orchestrator} {i : Nat} {pc pc' : Pc}
  {a : Ans}

/-! ## what a step leaves behind -/

theorem next_cancelled (h : pc.next d s a = some (pc', s')) {id : String} (hc : Cancelled s' id) :
    Cancelled s id ∨ pc = .cancelMark id ∧ pc' = .cancelContext id := by
  obtain ⟨x, hx, hst⟩ := hc
  -- a job under another identifier is as it was
  have hother : ∀ {i y}, s'.reg = update s.reg i y → id ≠ i → Cancelled s id := by
    intro i y hr hi
    rw [hr, update_of_ne hi] at hx
    exact ⟨x, hx, hst⟩
  cases next_moves h with
  | same hr => exact .inl ⟨x, hr ▸ hx, hst⟩
  | added j _ hpend hr =>
    by_cases hi : id = j.id
    · subst hi
      rw [hr, update_self] at hx
      cases hx
      rw [hpend] at hst
      cases hst
    · exact .inl (hother hr hi)
  | moved i j t f _ _ hf hcancel hr =>
    by_cases hi : id = i
    · subst hi
      rw [hr, update_self] at hx
      cases hx
      exact .inr (hcancel ((hf _).2.symm.trans hst))
    · exact .inl (hother hr hi)
  | removed i hr =>
    by_cases hi : id = i
    · subst hi
      rw [hr, update_self] at hx
      cases hx
    · exact .inl (hother hr hi)

theorem release_none (c : Contexts) (i : String) {id : String} (hc : c id = none) : c.release i id = none := by
  unfold Contexts.release
  by_cases hi : id = i
  · subst hi
    exact update_self ..
  · rw [update_of_ne hi]
    exact hc

theorem map_none (c : Contexts) (i : String) (f : ExecutionContext → ExecutionContext) {id : String}
    (hc : c id = none) : update c i ((c i).map f) id = none := by
  by_cases hi : id = i
  · subst hi
    rw [update_self, hc]
    rfl
  · rw [update_of_ne hi]
    exact hc

theorem next_there (h : pc.next d s a = some (pc', s')) {x : Leftover} (hx : x.there s = false) :
    x.there s' = false ∨ pc.makes = some x := by
  cases x with
  | entry id =>
    cases pc
    case schedule via j snap =>
      simp only [Pc.next] at h
      split at h
      · rename_i m hm
        cases h
        by_cases hid : id = snap.id
        · exact .inr (by rw [hid]; rfl)
        · exact .inl (schedule_has hm hid hx)
      · cases h
        exact .inl hx
    case cancelSchedule j =>
      cases h
      exact .inl (cancel_has_of hx j)
    all_goals refine .inl ?_
    all_goals cases a
    all_goals simp only [Pc.next] at h
    all_goals repeat' split at h
    all_goals cases h
    all_goals exact hx
  | context id =>
    have hn : s.ctxMgr id = none := Option.not_isSome_iff_eq_none.mp (Bool.eq_false_iff.mp hx)
    have hsome : ∀ c : Contexts, c id = none → (c id).isSome = false := fun c hc => by
      rw [hc]
      rfl
    cases pc
    case createContext via i j =>
      cases h
      by_cases hid : id = j.id
      · exact .inr (by rw [hid]; rfl)
      refine .inl (hsome _ ?_)
      show update s.ctxMgr j.id _ id = none
      rw [update_of_ne hid]
      exact hn
    all_goals refine .inl ?_
    all_goals cases a
    all_goals simp only [Pc.next] at h
    all_goals repeat' split at h
    all_goals cases h
    all_goals first
      | exact hx
      | exact hsome _ (release_none _ _ hn)
      | exact hsome _ (map_none _ _ _ hn)

theorem next_clears (h : pc.next d s a = some (pc', s')) {x : Leftover} (hx : x ∈ pc.clears) :
    x.there s' = false ∨ x ∈ pc'.clears := by
  cases pc
  case cancelContext id | cancelGet id =>
    cases h
    exact .inr hx
  case cancelSchedule id =>
    cases h
    rcases List.mem_cons.mp hx with rfl | hx
    · exact .inl (cancel_has _ _)
    · exact .inr hx
  case cancelRelease id snap =>
    cases h
    rw [List.mem_singleton.mp hx]
    refine .inl ?_
    show (update s.ctxMgr id none id).isSome = false
    rw [update_self]
    rfl
  all_goals cases hx

/-- **A watchful step pays.** -/
theorem clears_next (hp : sys.pool i = some pc) (hg : Watchful sys (.step i a))
    (h : pc.next d sys.shared a = some (pc', s')) (x : Leftover) : Pays Clean Clears sys i pc pc' s' x := by
  by_cases hm : pc.makes = some x
  · rcases hg pc hp x hm with hno | hb
    · refine .settles (.inl fun hc => ?_)
      rcases next_cancelled h hc with hc | ⟨rfl, -⟩
      · exact absurd hc hno
      · cases hm
    · exact .backed hb fun u hu => hu
  · by_cases hnew : pc = .cancelMark x.id ∧ pc' = .cancelContext x.id
    · obtain ⟨-, rfl⟩ := hnew
      refine .settles (.inr ?_)
      show x ∈ [Leftover.entry x.id, Leftover.context x.id]
      cases x <;> simp [Leftover.id]
    · refine .leaves (fun hf hc => ?_) (fun ho => ?_) fun u hu => hu
      · rcases next_cancelled h hc with hc | hc
        · exact (next_there h (hf hc)).resolve_right hm
        · exact absurd hc hnew
      · exact (next_clears h ho).imp_left fun hx _ => hx

/-! ## runs -/

/-- **Along every watchful run a cancelled job has no entry in the scheduler and no execution context
once all calls have returned.** -/
theorem cancelled_clean {ls : List (Act Call Ans)} (hc : Along (orchestrator d).next Watchful (idle {}) ls)
    (hr : run (orchestrator d).next (idle {}) ls = some sys) (hret : Returned ls sys)
    {id : String} {j : Job} (hj : sys.shared.reg id = some j) (hst : j.state = .cancelled) :
    sys.shared.sched.has id = false ∧ sys.shared.ctxMgr id = none := by
  have h0 : Owed Clean Clears (idle {}) :=
    owed_idle fun x hc => by
      obtain ⟨j, hj, -⟩ := hc
      cases hj
  have howed : Owed Clean Clears sys :=
    owed_run (P := orchestrator d) (fun s i a t t' m hC hp hs => clears_next hp hC hs) h0 hc hr
  have hclean : ∀ x, Clean sys.shared x := by
    refine fun x => howed.fine fun i t ht ho => ?_
    obtain ⟨res, err, rfl⟩ := hret.thread hr ht
    cases ho
  have hcan : Cancelled sys.shared id := ⟨j, hj, hst⟩
  refine ⟨hclean (.entry id) hcan, ?_⟩
  exact Option.not_isSome_iff_eq_none.mp (Bool.eq_false_iff.mp (hclean (.context id) hcan))

end

instance (s : Orchestrator) (id : String) : Decidable (Cancelled s id) := by
  unfold Cancelled
  infer_instance

/-- nothing is made for a cancelled job -/
def Sober : Act Call Ans → Prop
  | .step i _ => ∀ pc ∈ s.pool i, ∀ x ∈ pc.makes, ¬ Cancelled s.shared x.id
  | _ => True

instance (s : Sys Orchestrator Pc) (l : Act Call Ans) : Decidable (Sober s l) := by
  unfold Sober
  rcases l with _ | _ <;> infer_instance

theorem Sober.watchful (l : Act Call Ans) (h : Sober s l) : Watchful s l := by
  cases l with
  | spawn i c => trivial
  | step i a => exact fun pc hpc x hx => .inl (h pc hpc x hx)

def soberRun : List (Act Call Ans) :=
  call 0 (.submitted "a") 7 ++ call 1 (.cancel "a") 4 ++ steps 0 1 ++ steps 1 2 ++
    call 2 (.submitted "b") 3 ++ call 3 (.cancel "b") 6 ++ call 4 (.archive "b" false) 4 ++ steps 2 2

theorem cancelled_clean_soberRun : Along (orchestrator {}).next Watchful (idle {}) soberRun ∧
      ∃ sys ∈ run (orchestrator {}).next (idle {}) soberRun, Returned soberRun sys ∧
        ∃ j, sys.shared.reg "a" = some j ∧ j.state = .cancelled ∧
          sys.shared.sched.has "a" = false ∧ sys.shared.ctxMgr "a" = none := by
  have hend : ∃ sys ∈ run (orchestrator {}).next (idle {}) soberRun, Returned soberRun sys ∧
      ∃ j ∈ sys.shared.reg "a", j.state = .cancelled := by
    decide +kernel
  obtain ⟨sys, hr, hret, j, hj, hst⟩ := hend
  refine ⟨?hc, sys, hr, hret, j, hj, hst, cancelled_clean ?hc hr hret hj hst⟩
  refine along_mono Sober.watchful _ _ ?_
  decide +kernel

/-- the job is cancelled after it was moved to `Queued` and before it is scheduled -/
def overtakenRun : List (Act Call Ans) :=
  call 0 (.submitted "a") 6 ++ call 1 (.cancel "a") 6 ++ steps 0 2

/-- the job fails and is retried, and cancelled before the new context is created -/
def overtakenRetryRun : List (Act Call Ans) :=
  call 0 (.submitted "a") 8 ++ call 1 (.mark .failed "a") 3 ++ call 2 (.retry "a") 3 ++
    call 3 (.cancel "a") 6 ++ steps 2 2

/-- **A cancellation can overtake what it should clean up**: a cancelled job stays scheduled, or has a
context that is not cancelled. -/
theorem cancelled_leftover : (∃ sys ∈ run (orchestrator {}).next (idle {}) overtakenRun, Returned overtakenRun sys ∧
      (∃ j ∈ sys.shared.reg "a", j.state = .cancelled) ∧ sys.shared.sched.has "a" = true) ∧
    ∃ sys ∈ run (orchestrator {}).next (idle {}) overtakenRetryRun,
      Returned overtakenRetryRun sys ∧ (∃ j ∈ sys.shared.reg "a", j.state = .cancelled) ∧
        ∃ c ∈ sys.shared.ctxMgr "a", c.cancelled = false := by
  refine ⟨?_, ?_⟩ <;> decide +kernel

end Exec
