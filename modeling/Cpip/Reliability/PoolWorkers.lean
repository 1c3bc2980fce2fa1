import Cpip.Reliability.PoolBulkhead

/-!
# Reliability: workers that are blocked

A caller that gives up leaves the result of its function behind, in a channel of the capacity of the queue.

* `Tally`  as many functions are under way as callers wait or have given up;
* `workers_free`  **no worker is blocked when every call has returned**, unless too many callers have given up.
-/

namespace Reliability

open PoolBulkhead List Option Worker Caller Lts

variable {ε : Type} [DecidableEq ε]

def Label.quits : Label ε → Bool
  | .quit _ => true
  | _ => false

def Caller.waits (c : Caller ε) : Bool := c.pc = .waiting

/-- every `Execute` has returned, and every function that was submitted has finished -/
structure PoolBulkhead.Finished (s : PoolBulkhead ε) : Prop where
  callers : ∀ c ∈ s.callers, ∃ a, c.pc = .returned a
  jobs : s.jobs = []
  workers : ∀ i, .running i ∉ s.workers

/-- the pool is open and has its workers; `q` callers have given up -/
structure Tally (n capacity q : Nat) (s : PoolBulkhead ε) : Prop where
  closed : s.closed = false
  jobs : s.jobsClosed = false
  results : s.resultsClosed = false
  alive : s.panicked = false
  room : s.capacity = capacity
  size : s.workers.length = n
  here : .gone ∉ s.workers
  sum : s.callers.countP waits + q = s.jobs.length + s.workers.countP busy + s.results.length

section
variable {s t : PoolBulkhead ε} {n capacity q i w : Nat}

theorem countP_goto {pc : Pc ε} (h : s.pcOf i = some pc) (pc' : Pc ε) :
    (s.callers.modify i ({ · with pc := pc' })).countP waits + (decide (pc = .waiting)).toNat =
      s.callers.countP waits + (decide (pc' = .waiting)).toNat := by
  obtain ⟨c, hc, rfl⟩ := pcOf_eq h
  have hcount := countP_modify waits ({ · with pc := pc' }) s.callers i
  rw [hc] at hcount
  exact hcount

/-! ## runs -/

theorem Tally.callers (h : Tally n capacity q s) {q' : Nat} {cs : List (Caller ε)} {js : List Nat}
    {rs : List (Option ε)} {order : List Nat}
    (hsum : cs.countP waits + q' = js.length + s.workers.countP busy + rs.length) :
    Tally n capacity q' ⟨s.capacity, s.workers, cs, js, rs, false, false, false, false, order⟩ :=
  ⟨rfl, rfl, rfl, rfl, h.room, h.size, h.here, hsum⟩

theorem Tally.workers (h : Tally n capacity q s) {q' : Nat} {cs : List (Caller ε)} {js : List Nat}
    {rs : List (Option ε)} {order : List Nat} {x : Worker ε}
    (hsum : cs.countP waits + q' = js.length + (s.workers.set w x).countP busy + rs.length) (hx : x ≠ .gone) :
    Tally n capacity q' ⟨s.capacity, s.workers.set w x, cs, js, rs, false, false, false, false, order⟩ := by
  refine ⟨rfl, rfl, rfl, rfl, h.room, length_set.trans h.size, fun hg => ?_, hsum⟩
  exact (mem_or_eq_of_mem_set hg).elim h.here fun hg => hx hg.symm

theorem tally_step (h : Tally n capacity q s) {l : Label ε} (hl : l ≠ .close) (hn : s.step l = some t) :
    Tally n capacity (q + l.quits.toNat) t := by
  have hsum := h.sum
  cases l
  all_goals simp only [step, act, goto, work, h.alive, h.closed,
    h.jobs, h.results, Bool.false_eq_true, if_false, ite_none_right_eq_some, some.injEq, and_false,
    false_and, or_false, reduceCtorEq] at hn
  case close => exact absurd rfl hl
  case call =>
    subst hn
    refine h.callers ?_
    simpa [waits, Label.quits] using hsum
  case cancel i =>
    subst hn
    refine h.callers ?_
    have hcount := countP_modify waits ({ · with cancelled := true }) s.callers i
    rw [Nat.add_right_cancel hcount]
    exact hsum
  case refuseCtx i | refuseFull i =>
    obtain ⟨hi, rfl⟩ := hn
    refine h.callers ?_
    rw [Nat.add_right_cancel (countP_goto hi.1 (.returned _))]
    exact hsum
  case send i =>
    obtain ⟨hi, -, rfl⟩ := hn
    have hgo := countP_goto hi .waiting
    refine h.callers ?_
    simp [Label.quits] at hgo ⊢
    omega
  case hand i w =>
    obtain ⟨hi, rfl⟩ := hn
    have hgo := countP_goto hi.1 .waiting
    have hwork := countP_work busy hi.2.1 (.running i)
    refine h.workers ?_ (by simp)
    simp [Label.quits, busy] at hgo hwork ⊢
    omega
  case take w =>
    split at hn
    · cases hn
    · rename_i i rest hjobs
      simp only [ite_none_right_eq_some, some.injEq] at hn
      obtain ⟨hw, rfl⟩ := hn
      have hwork := countP_work busy hw (.running i)
      refine h.workers ?_ (by simp)
      simp [Label.quits, busy, hjobs] at hsum hwork ⊢
      omega
  case finish w r =>
    split at hn
    · rename_i i hw
      cases hn
      have hcount := countP_modify waits ({ · with ran := some r }) s.callers i
      have hwork := countP_work busy hw (.sending i r)
      refine h.workers ?_ (by simp)
      rw [Nat.add_right_cancel hcount]
      simp [Label.quits, busy] at hwork ⊢
      omega
    · cases hn
  case post w =>
    split at hn
    · rename_i j r hw
      simp only [ite_none_right_eq_some, some.injEq] at hn
      obtain ⟨-, rfl⟩ := hn
      have hwork := countP_work busy hw .idle
      refine h.workers ?_ (by simp)
      simp [Label.quits, busy] at hwork ⊢
      omega
    · cases hn
  case deliver w i =>
    split at hn
    · rename_i j r hw
      simp only [ite_none_right_eq_some, some.injEq] at hn
      obtain ⟨hi, rfl⟩ := hn
      have hgo := countP_goto hi.1 (.returned (.result r))
      have hwork := countP_work busy hw .idle
      refine h.workers ?_ (by simp)
      simp [Label.quits, busy] at hgo hwork ⊢
      omega
    · cases hn
  case receive i =>
    obtain ⟨hi, hn⟩ := hn
    split at hn
    · rename_i r rest hr
      cases hn
      have hgo := countP_goto hi (.returned (.result r))
      refine h.callers ?_
      simp [Label.quits, hr] at hsum hgo ⊢
      omega
    · cases hn
  case quit i =>
    obtain ⟨hi, rfl⟩ := hn
    have hgo := countP_goto hi.1 (.returned .ctx)
    refine h.callers ?_
    simp [Label.quits] at hgo ⊢
    omega

theorem tally_run {ls : List (Label ε)} (h : Tally n capacity q s) (hls : ∀ l ∈ ls, l ≠ .close)
    (hr : run step s ls = some t) : Tally n capacity (q + ls.countP Label.quits) t := by
  induction ls generalizing s q with
  | nil =>
    cases hr
    exact h
  | cons l ls ih =>
    obtain ⟨s', hs, hr⟩ := run_cons_eq hr
    have hrest := ih (tally_step h (hls l (mem_cons_self ..)) hs) (fun l' hl' => hls l' (mem_cons_of_mem _ hl')) hr
    rw [countP_cons, ite_toNat, Nat.add_comm (ls.countP _), ← Nat.add_assoc]
    exact hrest

theorem tally_new : Tally n capacity 0 (new n capacity : PoolBulkhead ε) :=
  ⟨rfl, rfl, rfl, rfl, rfl, length_replicate, fun h => (by cases eq_of_mem_replicate h),
    by simp [new, countP_replicate, busy]⟩

/-- **Every worker is idle or can deliver when every `Execute` has returned**, unless too many callers gave up. -/
theorem workers_free {ls : List (Label ε)} (hls : ∀ l ∈ ls, l ≠ .close)
    (hr : run step (new n capacity) ls = some s) (hdone : s.Finished)
    (hq : ls.countP Label.quits ≤ capacity) :
    s.workers.length = n ∧ ∀ w x, s.workers[w]? = some x → x = .idle ∨ ∃ i r, x = .sending i r ∧
      s.step (.post w) ≠ none := by
  have h := tally_run tally_new hls hr
  refine ⟨h.size, fun w x hw => ?_⟩
  cases x with
  | idle => exact .inl rfl
  | running i => exact absurd (mem_of_getElem? hw) (hdone.workers i)
  | gone => exact absurd (mem_of_getElem? hw) h.here
  | sending i r =>
    -- no caller waits, so the results are those of the callers that have given up, and this one is not in the channel
    have hwaits : s.callers.countP waits = 0 := by
      refine countP_eq_zero.mpr fun c hc => ?_
      obtain ⟨a, ha⟩ := hdone.callers c hc
      simp [waits, ha]
    have hbusy : 0 < s.workers.countP busy :=
      countP_pos_iff.mpr ⟨_, mem_of_getElem? hw, by simp [busy]⟩
    have hsum := h.sum
    rw [hwaits, hdone.jobs, length_nil] at hsum
    have hroom : s.results.length < s.capacity := by
      rw [h.room]
      omega
    exact .inr ⟨i, r, rfl, by simp [step, h.alive, act, hw, h.results, hroom]⟩

end

def gaveUpRun : List (Label Unit) := [.call, .send 0, .take 0, .cancel 0, .quit 0, .finish 0 none]

theorem workers_free_gaveUpRun : ∃ s ∈ run step (new 1 1) gaveUpRun,
    s.Finished ∧ s.workers = [.sending 0 none] ∧ s.step (.post 0) ≠ none := by
  have hend : ∃ s ∈ run step (new 1 1) gaveUpRun,
      s.callers = [⟨.returned .ctx, true, some none⟩] ∧ s.jobs = [] ∧ s.workers = [.sending 0 none] := by decide
  obtain ⟨s, hr, hc, hj, hw⟩ := hend
  have hdone : s.Finished := ⟨by simp [hc], hj, by simp [hw]⟩
  rcases (workers_free (by decide) hr hdone (by decide)).2 0 (.sending 0 none) (by rw [hw]; rfl) with h | ⟨-, -, -, h⟩
  · cases h
  · exact ⟨s, hr, hdone, hw, h⟩

/-- **A worker is blocked for good** when two callers have given up and the channel holds one result. -/
theorem worker_blocked : ∃ s ∈ run step (new 1 1) (gaveUpRun ++
      [.post 0, .call, .send 1, .take 0, .cancel 1, .quit 1, .finish 0 none]),
    s.Finished ∧ s.workers = [.sending 1 none] ∧ s.step (.post 0) = none ∧ ∀ i, s.step (.deliver 0 i) = none := by
  have hend : ∃ s ∈ run step (new 1 1) (gaveUpRun ++
        [.post 0, .call, .send 1, .take 0, .cancel 1, .quit 1, .finish 0 none]),
      s.callers = [⟨.returned .ctx, true, some none⟩, ⟨.returned .ctx, true, some none⟩] ∧ s.jobs = [] ∧
      s.workers = [.sending 1 none] ∧ s.results = [none] ∧ s.step (.post 0) = none := by decide
  obtain ⟨s, hr, hc, hj, hw, hres, hpost⟩ := hend
  refine ⟨s, hr, ⟨by simp [hc], hj, by simp [hw]⟩, hw, hpost, fun i => ?_⟩
  simp [step, act, hw, hres]

end Reliability
