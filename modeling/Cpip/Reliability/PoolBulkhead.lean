import Cpip.Lib.Run

/-!
# Reliability: the worker pool bulkhead

Callers of `Execute`, the workers and `Close` over three channels; a select takes any case that is ready.

* `InOrder`  results are posted, and taken, in the order in which the functions were handed over;
* `Sound`, `inOrder_step`  the results in the channel are those of the first callers, **and one step**;
* `execute_own`  **what an `Execute` returns is what its own function returned**, and nothing panics.

A send to a receiver that waits is one step with the receipt.  Metrics and events are left out.
-/

set_option linter.unusedSectionVars false

namespace Reliability

open List Option

inductive Answer (ε : Type) where
  | ctx
  | closed
  | full
  | result (r : Option ε)
deriving DecidableEq

inductive Pc (ε : Type) where
  | trying
  | waiting
  | returned (a : Answer ε)
deriving DecidableEq

structure Caller (ε : Type) where
  pc : Pc ε
  cancelled : Bool
  ran : Option (Option ε)
deriving DecidableEq

inductive Worker (ε : Type) where
  | idle
  | running (i : Nat)
  | sending (i : Nat) (r : Option ε)
  | gone
deriving DecidableEq

/-- a job is the number of its caller; `order` are the callers whose results were not taken, first come first -/
structure PoolBulkhead (ε : Type) where
  capacity : Nat
  workers : List (Worker ε)
  callers : List (Caller ε) := []
  jobs : List Nat := []
  results : List (Option ε) := []
  closed : Bool := false
  jobsClosed : Bool := false
  resultsClosed : Bool := false
  panicked : Bool := false
  order : List Nat := []

inductive Label (ε : Type) where
  | call
  | cancel (i : Nat)
  | refuseCtx (i : Nat)
  | refuseClosed (i : Nat)
  | refuseFull (i : Nat)
  | send (i : Nat)
  | hand (i w : Nat)
  | take (w : Nat)
  | exit (w : Nat)
  | finish (w : Nat) (r : Option ε)
  | post (w : Nat)
  | deliver (w i : Nat)
  | receive (i : Nat)
  | quit (i : Nat)
  | close
  | closeJobs
  | closeResults
deriving DecidableEq

variable {ε : Type} [DecidableEq ε]

namespace PoolBulkhead

def new (maxWorkers queueCapacity : Nat) : PoolBulkhead ε where
  capacity := queueCapacity
  workers := replicate maxWorkers .idle

variable (s : PoolBulkhead ε)

def pcOf (i : Nat) : Option (Pc ε) := s.callers[i]?.map Caller.pc

def isCancelled (i : Nat) : Bool := s.callers[i]?.any Caller.cancelled

def goto (i : Nat) (pc : Pc ε) : PoolBulkhead ε := { s with callers := s.callers.modify i ({ · with pc }) }

def work (w : Nat) (x : Worker ε) : PoolBulkhead ε := { s with workers := s.workers.set w x }

def act : Label ε → Option (PoolBulkhead ε)
  | .call => some { s with callers := s.callers ++ [⟨.trying, false, none⟩] }
  | .cancel i => some { s with callers := s.callers.modify i ({ · with cancelled := true }) }
  | .refuseCtx i =>
    if s.pcOf i = some .trying ∧ s.isCancelled i then some (s.goto i (.returned .ctx)) else none
  | .refuseClosed i =>
    if s.pcOf i = some .trying ∧ s.closed then some (s.goto i (.returned .closed)) else none
  | .refuseFull i =>
    -- the default case, when no other is ready
    if s.pcOf i = some .trying ∧ !s.isCancelled i ∧ !s.closed ∧ !s.jobsClosed ∧ s.capacity ≤ s.jobs.length then
      some (s.goto i (.returned .full))
    else none
  | .send i =>
    if s.pcOf i = some .trying then
      if s.jobsClosed then some { s with panicked := true }
      else if s.jobs.length < s.capacity then
        some { s.goto i .waiting with jobs := s.jobs ++ [i], order := s.order ++ [i] }
      else none
    else none
  | .hand i w =>
    if s.pcOf i = some .trying ∧ s.workers[w]? = some .idle ∧ s.jobs = [] ∧ !s.closed ∧ !s.jobsClosed then
      some { (s.goto i .waiting).work w (.running i) with order := s.order ++ [i] }
    else none
  | .take w =>
    match s.jobs with
    | [] => none
    | i :: rest =>
      if s.workers[w]? = some .idle then some { s.work w (.running i) with jobs := rest } else none
  | .exit w =>
    if s.workers[w]? = some .idle ∧ (s.closed ∨ s.jobsClosed ∧ s.jobs = []) then some (s.work w .gone) else none
  | .finish w r =>
    match s.workers[w]? with
    | some (.running i) =>
      some { s.work w (.sending i r) with callers := s.callers.modify i ({ · with ran := some r }) }
    | _ => none
  | .post w =>
    match s.workers[w]? with
    | some (.sending _ r) =>
      if s.resultsClosed then some { s with panicked := true }
      else if s.results.length < s.capacity then some { s.work w .idle with results := s.results ++ [r] }
      else none
    | _ => none
  | .deliver w i =>
    match s.workers[w]? with
    | some (.sending _ r) =>
      if s.pcOf i = some .waiting ∧ s.results = [] ∧ !s.resultsClosed then
        some { (s.goto i (.returned (.result r))).work w .idle with order := s.order.tail }
      else none
    | _ => none
  | .receive i =>
    if s.pcOf i = some .waiting then
      match s.results with
      | r :: rest => some { s.goto i (.returned (.result r)) with results := rest, order := s.order.tail }
      | [] => if s.resultsClosed then some (s.goto i (.returned (.result none))) else none
    else none
  | .quit i => if s.pcOf i = some .waiting ∧ s.isCancelled i then some (s.goto i (.returned .ctx)) else none
  | .close => if !s.closed then some { s with closed := true } else none
  | .closeJobs => if s.closed ∧ !s.jobsClosed then some { s with jobsClosed := true } else none
  | .closeResults =>
    if s.jobsClosed ∧ !s.resultsClosed ∧ ∀ x ∈ s.workers, x = .gone then some { s with resultsClosed := true } else none

def step (l : Label ε) : Option (PoolBulkhead ε) := if s.panicked then none else s.act l

end PoolBulkhead

/-! ## results in order -/

/-- the caller whose result the worker has -/
def Worker.owner : Worker ε → Option Nat
  | sending i _ => some i
  | _ => none

/-- results are posted, and taken, in the order of their functions; the pool is closed when no caller waits -/
def InOrder (s : PoolBulkhead ε) : Label ε → Prop
  | .send _ => s.closed = false
  | .hand _ _ => s.closed = false
  | .post w => s.order[s.results.length]? = s.workers[w]?.bind Worker.owner
  | .deliver w i => s.order.head? = some i ∧ s.workers[w]?.bind Worker.owner = some i
  | .receive i => s.order.head? = some i
  | .close => ∀ c ∈ s.callers, c.pc ≠ .waiting
  | _ => True

def Worker.busy : Worker ε → Bool
  | running _ => true
  | sending _ _ => true
  | _ => false

def Worker.runs (i : Nat) : Worker ε → Bool
  | running j => j == i
  | _ => false

namespace PoolBulkhead

variable (s : PoolBulkhead ε) (i : Nat)

def ran : Option (Option ε) := s.callers[i]?.bind Caller.ran

/-- the function was handed over and has not returned -/
def due : Bool := s.callers[i]?.any fun c => c.pc ≠ .trying ∧ c.ran = none

end PoolBulkhead

/-- a caller that waits has an open pool, and one that has its result has what its function returned -/
def Caller.Fits (closed : Bool) (c : Caller ε) : Prop :=
  match c.pc with
  | .trying => c.ran = none
  | .waiting => closed = false
  | .returned (.result r) => c.ran = some r
  | .returned _ => True

open PoolBulkhead Worker

/-- every function runs once, and what its worker has, and what is in the channel for its caller, is what it
returned -/
structure Sound (s : PoolBulkhead ε) : Prop where
  alive : s.panicked = false
  jobs : s.jobsClosed = true → s.closed = true
  results : s.resultsClosed = true → s.closed = true ∧ ∀ x ∈ s.workers, x = .gone
  callers : ∀ c ∈ s.callers, c.Fits s.closed
  once : ∀ i, s.jobs.count i + s.workers.countP (runs i) ≤ (s.due i).toNat
  sending : ∀ i r, .sending i r ∈ s.workers → s.ran i = some r
  posted : ∀ (k : Nat) r, s.results[k]? = some r → ∃ i, s.order[k]? = some i ∧ s.ran i = some r

section
variable {s t : PoolBulkhead ε} {i j w : Nat} {r : Option ε} {x y : Worker ε} {c : Caller ε}

/-! ## counting -/

theorem ite_toNat (b : Bool) : (if b = true then 1 else 0) = b.toNat := by
  cases b <;> rfl

theorem countP_modify {α : Type} (p : α → Bool) (f : α → α) (l : List α) (i : Nat) :
    (l.modify i f).countP p + (l[i]?.any p).toNat = l.countP p + (l[i]?.any fun a => p (f a)).toNat := by
  induction l generalizing i with
  | nil => simp
  | cons a l ih =>
    cases i with
    | zero =>
      simp only [modify_zero_cons, countP_cons, ite_toNat, getElem?_cons_zero, any_some]
      omega
    | succ i =>
      have hl := ih i
      simp only [modify_succ_cons, countP_cons, getElem?_cons_succ]
      omega

theorem countP_work (p : Worker ε → Bool) (h : s.workers[w]? = some x) (y : Worker ε) :
    (s.workers.set w y).countP p + (p x).toNat = s.workers.countP p + (p y).toNat := by
  have hcount := countP_modify p (fun _ => y) s.workers w
  rwa [h, ← set_eq_modify] at hcount

theorem runs_freed (h : s.workers[w]? = some x) (hy : runs j y = false) :
    (s.workers.set w y).countP (runs j) ≤ s.workers.countP (runs j) := by
  have hwork := countP_work (runs j) h y
  rw [hy, Bool.toNat_false] at hwork
  omega

theorem pcOf_eq {pc : Pc ε} (h : s.pcOf i = some pc) : ∃ c : Caller ε, s.callers[i]? = some c ∧ c.pc = pc :=
  map_eq_some_iff.mp h

theorem Sound.results_open (h : Sound s) (hw : s.workers[w]? = some x) (hx : x ≠ .gone) : s.resultsClosed = false := by
  cases hr : s.resultsClosed with
  | false => rfl
  | true => exact absurd ((h.results hr).2 x (mem_of_getElem? hw)) hx

/-! ## kinds of steps -/

theorem mem_modify {α : Type} {l : List α} {f : α → α} {a : α} (h : a ∈ l.modify i f) :
    a ∈ l ∨ ∃ b, l[i]? = some b ∧ a = f b := by
  obtain ⟨j, hj⟩ := mem_iff_getElem?.mp h
  rw [getElem?_modify] at hj
  split at hj
  · next hij =>
    subst hij
    obtain ⟨b, hb, rfl⟩ := map_eq_some_iff.mp hj
    exact .inr ⟨b, hb, rfl⟩
  · exact .inl (mem_of_getElem? (by simpa using hj))

@[simp] theorem ran_goto (s : PoolBulkhead ε) (i j : Nat) (pc : Pc ε) : (s.goto i pc).ran j = s.ran j := by
  simp only [ran, goto, getElem?_modify]
  split <;> cases s.callers[j]? <;> rfl

theorem due_goto (pc : Pc ε) (hpc : pc ≠ .trying) (j : Nat) : (s.due j).toNat ≤ ((s.goto i pc).due j).toNat := by
  simp only [due, goto, getElem?_modify]
  split
  · cases s.callers[j]? with
    | none => exact Nat.le_refl _
    | some c => by_cases hr : c.ran = none <;> simp [hpc, hr, Bool.toNat_le]
  · cases s.callers[j]? <;> exact Nat.le_refl _

/-- callers that start, are cancelled, or return an error of their own -/
theorem sound_callers (h : Sound s) {l : List (Caller ε)} (hl : ∀ c ∈ l, c.Fits s.closed)
    (hran : ∀ j, ran { s with callers := l } j = s.ran j)
    (hdue : ∀ j, (s.due j).toNat ≤ (due { s with callers := l } j).toNat) :
    Sound { s with callers := l } := by
  refine ⟨h.alive, h.jobs, h.results, hl, fun i => Nat.le_trans (h.once i) (hdue i), fun i r hi => ?_, fun k r hk => ?_⟩
  · rw [hran]
    exact h.sending i r hi
  · simp only [hran]
    exact h.posted k r hk

theorem fits_goto (h : Sound s) {pc : Pc ε} (hpc : ∀ c : Caller ε, s.callers[i]? = some c →
    ({ c with pc } : Caller ε).Fits s.closed) (c : Caller ε) (hc : c ∈ (s.goto i pc).callers) : c.Fits s.closed := by
  rcases mem_modify hc with hc | ⟨b, hb, rfl⟩
  · exact h.callers c hc
  · exact hpc b hb

/-- a function is handed over -/
theorem sound_start (h : Sound s) (hc : s.closed = false) (hi : s.pcOf i = some .trying) {W : List (Worker ε)}
    {jobs : List Nat} (honce : ∀ j, jobs.count j + W.countP (runs j) ≤
      s.jobs.count j + s.workers.countP (runs j) + (i == j).toNat)
    (hW : ∀ j r, .sending j r ∈ W → .sending j r ∈ s.workers) :
    Sound { s.goto i .waiting with workers := W, jobs, order := s.order ++ [i] } := by
  obtain ⟨c, hci, hpc⟩ := pcOf_eq hi
  refine ⟨h.alive, h.jobs, fun hr => ?_, fits_goto h fun _ _ => hc, fun j => Nat.le_trans (honce j) ?_,
    fun j r hj => ?_, fun k r hk => ?_⟩
  · cases hc.symm.trans (h.results hr).1
  · show _ ≤ ((s.goto i .waiting).due j).toNat
    have hold := h.once j
    by_cases hji : j = i
    · subst hji
      have hran : c.ran = none := by simpa [Caller.Fits, hpc] using h.callers c (mem_of_getElem? hci)
      have hno : s.due j = false := by simp [due, hci, hpc]
      have hyes : (s.goto j .waiting).due j = true := by simp [due, goto, hci, hran]
      simp only [hno, hyes, Bool.toNat_false, Bool.toNat_true, beq_self_eq_true] at hold ⊢
      omega
    · have hdue := due_goto (s := s) (i := i) .waiting (by simp) j
      rw [beq_eq_false_iff_ne.mpr (Ne.symm hji), Bool.toNat_false]
      omega
  · exact (ran_goto s i j _).trans (h.sending j r (hW j r hj))
  · obtain ⟨j, hj, hran⟩ := h.posted k r hk
    refine ⟨j, ?_, (ran_goto s i j _).trans hran⟩
    exact (getElem?_append_left (List.getElem?_eq_some_iff.mp hj).1).trans hj

/-- the caller takes what its function returned -/
theorem sound_return (h : Sound s) (hopen : s.resultsClosed = false) (hran : s.ran i = some r) {W : List (Worker ε)}
    (honce : ∀ j, W.countP (runs j) ≤ s.workers.countP (runs j))
    (hW : ∀ j r, .sending j r ∈ W → .sending j r ∈ s.workers) :
    Sound { s.goto i (.returned (.result r)) with
      workers := W, results := s.results.tail, order := s.order.tail } := by
  refine ⟨h.alive, h.jobs, fun hr => ?_, fits_goto h fun c hc => ?_, fun j => ?_, fun j q hj => ?_, fun k q hk => ?_⟩
  · cases hopen.symm.trans hr
  · simpa [Caller.Fits, ran, hc] using hran
  · have hold := h.once j
    have hnew := honce j
    have hdue := due_goto (s := s) (i := i) (.returned (.result r)) (by simp) j
    show s.jobs.count j + W.countP _ ≤ ((s.goto i (.returned (.result r))).due j).toNat
    omega
  · exact (ran_goto s i j _).trans (h.sending j q (hW j q hj))
  · obtain ⟨j, hj, hq⟩ := h.posted (k + 1) q (getElem?_tail.symm.trans hk)
    exact ⟨j, getElem?_tail.trans hj, (ran_goto s i j _).trans hq⟩

/-- a worker takes a function, posts its result, or exits -/
theorem sound_pool (h : Sound s) (hopen : s.resultsClosed = false) {W : List (Worker ε)} {jobs : List Nat}
    {results : List (Option ε)} (honce : ∀ j, jobs.count j + W.countP (runs j) ≤
      s.jobs.count j + s.workers.countP (runs j))
    (hW : ∀ j r, .sending j r ∈ W → .sending j r ∈ s.workers)
    (hposted : ∀ (k : Nat) r, results[k]? = some r → ∃ i, s.order[k]? = some i ∧ s.ran i = some r) :
    Sound { s with workers := W, jobs, results } := by
  refine ⟨h.alive, h.jobs, fun hr => ?_, h.callers, fun j => Nat.le_trans (honce j) (h.once j),
    fun j r hj => h.sending j r (hW j r hj), hposted⟩
  cases hopen.symm.trans hr

/-- a function that runs was handed over and has not returned -/
theorem Sound.running (h : Sound s) (hw : s.workers[w]? = some (.running i)) :
    ∃ c : Caller ε, s.callers[i]? = some c ∧ c.pc ≠ .trying ∧ c.ran = none := by
  have hpos : 0 < s.workers.countP (runs i) :=
    countP_pos_iff.mpr ⟨_, mem_of_getElem? hw, by simp [runs]⟩
  have hone := h.once i
  have hdue : s.due i = true := by
    cases hd : s.due i with
    | true => rfl
    | false =>
      rw [hd, Bool.toNat_false] at hone
      omega
  simpa [due, Option.any_eq_true] using hdue

theorem sound_finish (h : Sound s) (hw : s.workers[w]? = some (.running i)) :
    Sound { s.work w (.sending i r) with callers := s.callers.modify i ({ · with ran := some r }) } := by
  have hopen := h.results_open hw nofun
  obtain ⟨c, hc, htry, hnone⟩ := h.running hw
  have hran : ∀ j q, s.ran j = some q →
      (s.callers.modify i ({ · with ran := some r }))[j]?.bind Caller.ran = some q := by
    intro j q hj
    rw [getElem?_modify]
    split
    · next hij =>
      subst hij
      simp [ran, hc, hnone] at hj
    · simpa [ran] using hj
  have hself : (s.callers.modify i ({ · with ran := some r }))[i]?.bind Caller.ran = some r := by
    simp [hc]
  refine ⟨h.alive, h.jobs, fun hr => ?_, fun d hd => ?_, fun j => ?_, fun j q hj => ?_, fun k q hk => ?_⟩
  · cases hopen.symm.trans hr
  · rcases mem_modify hd with hd | ⟨b, hb, rfl⟩
    · exact h.callers d hd
    · cases hc.symm.trans hb
      have hfit := h.callers c (mem_of_getElem? hc)
      unfold Caller.Fits at hfit ⊢
      dsimp only [work]
      split at hfit <;> simp_all
  · have hwork := countP_work (runs j) hw (.sending i r)
    have hold := h.once j
    show s.jobs.count j + (s.workers.set w (.sending i r)).countP _ ≤ (Option.any _ _).toNat
    unfold due at hold
    by_cases hij : i = j
    · subst hij
      simp only [runs, hc, htry, hnone, beq_self_eq_true, decide_true, Bool.toNat_true, Bool.toNat_false,
        Option.any_some, ne_eq, not_false_eq_true, and_self] at hwork hold
      omega
    · simp only [runs, beq_eq_false_iff_ne.mpr hij, Bool.toNat_false] at hwork
      rw [getElem?_modify_ne _ _ hij]
      omega
  · rcases mem_or_eq_of_mem_set hj with hj | hj
    · exact hran j q (h.sending j q hj)
    · cases hj
      exact hself
  · obtain ⟨j, hj, hq⟩ := h.posted k q hk
    exact ⟨j, hj, hran j q hq⟩

theorem sound_flags {closed jobsClosed resultsClosed : Bool} (h : Sound s) (hjobs : jobsClosed = true → closed = true)
    (hresults : resultsClosed = true → closed = true ∧ ∀ x ∈ s.workers, x = .gone)
    (hcallers : ∀ c ∈ s.callers, c.Fits closed) : Sound { s with closed, jobsClosed, resultsClosed } :=
  ⟨h.alive, hjobs, hresults, hcallers, h.once, h.sending, h.posted⟩

/-- **One step**, when results are posted and taken in order. -/
theorem inOrder_step (s : PoolBulkhead ε) (l : Label ε) (t : PoolBulkhead ε) (h : Sound s) (hl : InOrder s l)
    (hn : s.step l = some t) : Sound t := by
  have hmem : ∀ {w : Nat} {x : Worker ε}, x.owner = none → ∀ j r, .sending j r ∈ s.workers.set w x →
      .sending j r ∈ s.workers := by
    intro w x hx j r hj
    refine (mem_or_eq_of_mem_set hj).resolve_right ?_
    rintro rfl
    cases hx
  unfold step at hn
  rw [h.alive, if_neg (by decide)] at hn
  cases l
  all_goals simp only [act, work, ite_none_right_eq_some, some.injEq] at hn
  case call =>
    subst hn
    refine sound_callers h (fun c hc => ?_) (fun j => ?_) fun j => ?_
    · rcases mem_append.mp hc with hc | hc
      · exact h.callers c hc
      · cases mem_singleton.mp hc
        rfl
    all_goals
      simp only [ran, due]
      grind
  case cancel i =>
    subst hn
    refine sound_callers h (fun c hc => ?_) (fun j => ?_) fun j => ?_
    · rcases mem_modify hc with hc | ⟨b, hb, rfl⟩
      · exact h.callers c hc
      · exact h.callers b (mem_of_getElem? hb)
    all_goals
      simp only [ran, due, getElem?_modify]
      split <;> cases s.callers[j]? <;> simp
  case refuseCtx i | refuseClosed i | refuseFull i | quit i =>
    obtain ⟨-, rfl⟩ := hn
    exact sound_callers h (fits_goto h fun _ _ => trivial) (fun j => ran_goto s i j _) (due_goto _ (by simp))
  case send i =>
    have hopen : s.jobsClosed = false := by
      have hj := h.jobs
      grind [InOrder]
    simp only [hopen, Bool.false_eq_true, if_false, ite_none_right_eq_some, some.injEq] at hn
    obtain ⟨hi, -, rfl⟩ := hn
    refine sound_start h hl hi (fun j => ?_) fun _ _ hj => hj
    rw [count_append, count_singleton, ite_toNat]
    show _ + s.workers.countP _ ≤ _
    omega
  case hand i w =>
    obtain ⟨hi, rfl⟩ := hn
    refine sound_start h hl hi.1 (fun j => ?_) (hmem rfl)
    have hwork := countP_work (runs j) hi.2.1 (.running i)
    simp only [runs, goto, Bool.toNat_false] at hwork ⊢
    omega
  case take w =>
    split at hn
    · cases hn
    · rename_i i rest hjobs
      simp only [ite_none_right_eq_some, some.injEq] at hn
      obtain ⟨hw, rfl⟩ := hn
      refine sound_pool h (h.results_open hw nofun) (fun j => ?_) (hmem rfl) h.posted
      have hwork := countP_work (runs j) hw (.running i)
      simp only [runs, Bool.toNat_false] at hwork
      rw [hjobs, count_cons, ite_toNat]
      omega
  case exit w =>
    obtain ⟨hw, rfl⟩ := hn
    exact sound_pool h (h.results_open hw.1 nofun) (fun j => Nat.add_le_add_left (runs_freed hw.1 rfl) _) (hmem rfl)
      h.posted
  case finish w r =>
    split at hn
    · next hw =>
      cases hn
      exact sound_finish h hw
    · cases hn
  case post w =>
    split at hn
    · next i r hw =>
      rw [if_neg (by simp [h.results_open hw nofun])] at hn
      simp only [ite_none_right_eq_some, some.injEq] at hn
      obtain ⟨-, rfl⟩ := hn
      refine sound_pool h (h.results_open hw nofun) (fun j => Nat.add_le_add_left (runs_freed hw rfl) _) (hmem rfl)
        fun k q hk => ?_
      by_cases hlt : k < s.results.length
      · rw [getElem?_append_left hlt] at hk
        exact h.posted k q hk
      · obtain ⟨rfl, rfl⟩ : k = s.results.length ∧ q = r := by grind
        exact ⟨i, by simpa [InOrder, hw, owner] using hl, h.sending i q (mem_of_getElem? hw)⟩
    · cases hn
  case deliver w i =>
    split at hn
    · next j r hw =>
      simp only [ite_none_right_eq_some, some.injEq] at hn
      obtain ⟨hi, rfl⟩ := hn
      have hown : j = i := by simpa [InOrder, hw, owner] using hl.2
      have hran := hown ▸ h.sending j r (mem_of_getElem? hw)
      have hreturn := sound_return h (h.results_open hw nofun) hran (fun j => runs_freed (y := .idle) hw rfl) (hmem rfl)
      simpa [goto, hi.2.1] using hreturn
    · cases hn
  case receive i =>
    obtain ⟨hi, hn⟩ := hn
    obtain ⟨c, hc, hpc⟩ := pcOf_eq hi
    have hopen : s.resultsClosed = false := by
      have hfit := h.callers c (mem_of_getElem? hc)
      have hr := h.results
      grind [Caller.Fits]
    split at hn
    · next r rest hr =>
      cases hn
      obtain ⟨j, hj, hran⟩ := h.posted 0 r (by rw [hr]; rfl)
      have hij : j = i := by
        rw [← head?_eq_getElem?] at hj
        exact Option.some.inj (hj.symm.trans hl)
      have hreturn := sound_return h hopen (hij ▸ hran) (W := s.workers) (fun j => Nat.le_refl _) fun _ _ hj => hj
      simpa [goto, hr] using hreturn
    · simp [hopen] at hn
  case close =>
    obtain ⟨-, rfl⟩ := hn
    refine sound_flags h (fun _ => rfl) (fun hr => ⟨rfl, (h.results hr).2⟩) fun c hc => ?_
    have hwait := hl c hc
    have hfit := h.callers c hc
    unfold Caller.Fits at hfit ⊢
    grind
  case closeJobs =>
    obtain ⟨hc, rfl⟩ := hn
    exact sound_flags h (fun _ => hc.1) h.results h.callers
  case closeResults =>
    obtain ⟨hc, rfl⟩ := hn
    exact sound_flags h h.jobs (fun _ => ⟨h.jobs hc.1, hc.2.2⟩) h.callers

theorem sound_new (maxWorkers queueCapacity : Nat) : Sound (new maxWorkers queueCapacity : PoolBulkhead ε) := by
  refine ⟨rfl, nofun, nofun, nofun, fun i => ?_, fun i r hi => ?_, nofun⟩
  · simp [new, countP_replicate, runs]
  · cases eq_of_mem_replicate hi

/-- **What an `Execute` returns is what its own function returned**, in every run in order, and nothing panics. -/
theorem execute_own {maxWorkers queueCapacity : Nat} {run : List (Label ε)}
    (hC : Lts.Along step InOrder (new maxWorkers queueCapacity) run)
    (hr : Lts.run step (new maxWorkers queueCapacity) run = some s) : s.panicked = false ∧
      ∀ (i : Nat) (c : Caller ε) (r : Option ε), s.callers[i]? = some c → c.pc = .returned (.result r) →
        c.ran = some r := by
  have h := Lts.run_inv inOrder_step (sound_new maxWorkers queueCapacity) hC hr
  refine ⟨h.alive, fun i c r hc hp => ?_⟩
  have hfit := h.callers c (mem_of_getElem? hc)
  unfold Caller.Fits at hfit
  rw [hp] at hfit
  exact hfit

end

/-! ## runs -/

instance (s : PoolBulkhead ε) : DecidablePred (InOrder s) := by
  intro l
  unfold InOrder
  split <;> infer_instance

/-- two functions at a time, of which the second returns first; then one whose caller gives up, and a `Close` -/
def orderedRun : List (Label String) :=
  [.call, .call, .send 0, .send 1, .take 0, .take 1, .finish 1 (some "failed"), .finish 0 none, .post 0, .receive 0,
    .deliver 1 1, .call, .hand 2 0, .cancel 2, .quit 2, .close, .call, .refuseClosed 3, .closeJobs, .finish 0 none,
    .post 0, .exit 0, .exit 1, .closeResults]

theorem execute_own_orderedRun : Lts.Along step InOrder (new 2 2) orderedRun ∧
    ∃ s ∈ Lts.run step (new 2 2) orderedRun, s.callers.map Caller.pc =
        [.returned (.result none), .returned (.result (some "failed")), .returned .ctx, .returned .closed] ∧
      s.panicked = false ∧
      ∀ (i : Nat) (c : Caller String) (r : Option String), s.callers[i]? = some c → c.pc = .returned (.result r) →
        c.ran = some r := by
  refine ⟨?hC, Lts.exists_run_and (by decide +kernel) fun s hr _ => execute_own ?hC hr⟩
  decide +kernel

/-- **A caller gets the result of another one**, or nil from a closed pool; and a closed channel is sent on. -/
theorem execute_other : (∃ s ∈ Lts.run step (new 2 2 : PoolBulkhead String)
        [.call, .call, .send 0, .send 1, .take 0, .take 1, .finish 1 (some "failed"), .post 1, .receive 0,
          .finish 0 none, .post 0, .receive 1],
      s.callers = [⟨.returned (.result (some "failed")), false, some none⟩,
        ⟨.returned (.result none), false, some (some "failed")⟩]) ∧
    (∃ s ∈ Lts.run step (new 1 1 : PoolBulkhead String)
        [.call, .send 0, .close, .exit 0, .closeJobs, .closeResults, .receive 0],
      s.callers = [⟨.returned (.result none), false, none⟩]) ∧
    ∃ s ∈ Lts.run step (new 1 1 : PoolBulkhead String) [.call, .close, .closeJobs, .send 0],
      s.panicked = true := by
  decide +kernel

end Reliability
