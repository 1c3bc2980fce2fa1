import Cpip.Lib.Code
import Mathlib.Algebra.Ring.Int.Defs

/-!
# Reliability: protected calls

`Client.Protect` over the mechanisms of `reliability/manager`: rate limiter, backpressure, bulkhead, circuit breaker
and retry, each of them optional.

* `wp_attempt`, `wp_retryLoop`  what one attempt and the loop do;
* `protect_returns`  **what a protected call gives back, how often it calls and what it returns**.

The decision of a rate limiter, the comparison of the failure rate with its threshold, and the moment at which the
context is done are the environment's.  Delays, events and metrics are left out.
-/

namespace Reliability

open Code Function List Option

/-! ## configuration -/

/-- `CircuitBreakerConfig`; `trips` compares the failures among some requests with the threshold -/
structure CircuitBreakerConfig where
  trips : Nat → Nat → Bool
  recoveryTimeout : Int
  successThreshold : Int
  failureWindow : Int
  minRequests : Int

structure RetryConfig where
  maxAttempts : Int

inductive BulkheadType where
  | pool
  | semaphore

structure BulkheadConfig where
  type : BulkheadType
  maxConcurrent : Nat

/-- `Policy`; of a rate limiter only whether there is one -/
structure Policy where
  retry : Option RetryConfig := none
  circuitBreaker : Option CircuitBreakerConfig := none
  bulkhead : Option BulkheadConfig := none
  rateLimit : Bool := false

abbrev Policies := String → Option Policy

/-- the mechanism of a name, or that of the default policy, with the name it is registered under -/
def find {α : Type} (select : Policy → Option α) (P : Policies) (name : String) : Option (String × α) :=
  match (P name).bind select with
  | some x => some (name, x)
  | none => ((P "default").bind select).map fun x => ("default", x)

def newRetryExecutor (cfg : RetryConfig) : RetryConfig :=
  if cfg.maxAttempts ≤ 0 then { cfg with maxAttempts := 1 } else cfg

variable (cfg : CircuitBreakerConfig)

def newCircuitBreaker : CircuitBreakerConfig :=
  let cfg := if cfg.successThreshold ≤ 0 then { cfg with successThreshold := 1 } else cfg
  if cfg.failureWindow ≤ 0 then { cfg with failureWindow := 10000000000 } else cfg

variable (P : Policies) (name : String)

def getRetry : Option RetryConfig :=
  (find (fun p => p.retry.map newRetryExecutor) P name).map Prod.snd

def getCircuitBreaker : Option (String × CircuitBreakerConfig) :=
  find (fun p => p.circuitBreaker.map newCircuitBreaker) P name

def getBulkhead : Option (String × BulkheadConfig) := find Policy.bulkhead P name

def getRateLimiter : Option (String × Unit) :=
  find (fun p => if p.rateLimit then some () else none) P name

/-! ## the mechanisms -/

inductive BreakerState where
  | stateClosed
  | stateHalfOpen
  | stateOpen
deriving DecidableEq

structure CircuitBreaker where
  state : BreakerState := .stateClosed
  records : List (Int × Bool) := []
  openedAt : Int := 0
  halfOpenSuccesses : Int := 0

namespace CircuitBreaker

variable (cb : CircuitBreaker)

def transitionTo (now : Int) : BreakerState → CircuitBreaker
  | .stateOpen => { cb with state := .stateOpen, openedAt := now, records := [] }
  | .stateClosed => { cb with state := .stateClosed, halfOpenSuccesses := 0, records := [] }
  | .stateHalfOpen => { cb with state := .stateHalfOpen, halfOpenSuccesses := 0 }

def evaluateStateTransitions (now : Int) : CircuitBreaker :=
  if cb.state = .stateOpen ∧ cfg.recoveryTimeout ≤ now - cb.openedAt then cb.transitionTo now .stateHalfOpen else cb

/-- `pruneOldRecords`; nothing is pruned when every record is old -/
def pruneOldRecords (records : List (Int × Bool)) (now : Int) : List (Int × Bool) :=
  match records.findIdx? (now - cfg.failureWindow < ·.1) with
  | some i => records.drop i
  | none => records

/-- `recordResult`; the second time is that of the transition -/
def recordResult (now later : Int) (success : Bool) : CircuitBreaker :=
  if cb.state = .stateHalfOpen then
    if success then
      let cb := { cb with halfOpenSuccesses := cb.halfOpenSuccesses + 1 }
      if cfg.successThreshold ≤ cb.halfOpenSuccesses then cb.transitionTo later .stateClosed else cb
    else cb.transitionTo later .stateOpen
  else
    let records := pruneOldRecords cfg (cb.records ++ [(now, success)]) now
    let cb := { cb with records }
    if cfg.minRequests ≤ records.length ∧ cfg.trips (records.countP (!·.2)) records.length then
      cb.transitionTo later .stateOpen
    else cb

end CircuitBreaker

structure Backpressure where
  activeTasks : Int := 0
  latencies : List Int := []

namespace Backpressure

def averageLatency (b : Backpressure) : Int := if b.latencies = [] then 0 else b.latencies.sum.tdiv b.latencies.length

def acquire (b : Backpressure) (priority : Nat) : Bool × Backpressure :=
  let isLoadHigh := 200 ≤ b.activeTasks
  let isSystemSlow := 500000000 < b.averageLatency ∧ 5 ≤ b.latencies.length
  if isLoadHigh ∨ isSystemSlow then
    if priority = 2 ∧ b.activeTasks < 205 then (true, { b with activeTasks := b.activeTasks + 1 }) else (false, b)
  else (true, { b with activeTasks := b.activeTasks + 1 })

def release (b : Backpressure) (duration : Int) : Backpressure :=
  let latencies := b.latencies ++ [duration]
  { activeTasks := b.activeTasks - 1, latencies := if 50 < latencies.length then latencies.drop 1 else latencies }

end Backpressure

/-! ## accesses -/

variable {ε : Type}

inductive Outcome (ε : Type) where
  | nil
  | err (e : ε)
  | panic

inductive Err (ε : Type) where
  | rateLimited
  | shed
  | bulkheadFull
  | unsupported
  | circuitOpen
  | ctx
  | noRetry (name : String)
  | fn (e : ε)
  | exhausted (attempts : Int) (last : Option (Err ε))

inductive Res (ε : Type) where
  | nil
  | err (e : Err ε)
  | panic

/-- what `Acquire` of a semaphore answers -/
inductive Slot where
  | acquired
  | full
  | ctx

inductive Cmd where
  | rateAllow (key : String)
  | bpAcquire (priority : Nat)
  | bpRelease
  | semAcquire (key : String) (capacity : Nat)
  | semRelease (key : String)
  | poolAcquire (key : String)
  | cbAllow (key : String) (cfg : CircuitBreakerConfig)
  | cbDone (key : String) (cfg : CircuitBreakerConfig) (success : Bool)
  | ctxErr
  | call
  | sleep

abbrev Cmd.Ans (ε : Type) : Cmd → Type
  | .rateAllow _ => Bool
  | .bpAcquire _ => Bool
  | .bpRelease => Unit
  | .semAcquire _ _ => Slot
  | .semRelease _ => Unit
  | .poolAcquire _ => Unit
  | .cbAllow _ _ => Bool
  | .cbDone _ _ _ => Unit
  | .ctxErr => Bool
  | .call => Outcome ε
  | .sleep => Bool

/-- the mechanisms, the outcomes of the function, the refusals, and the answers of the context to the retry loop -/
structure World (ε : Type) where
  backpressure : Backpressure := {}
  sem : String → Nat := fun _ => 0
  breakers : String → CircuitBreaker := fun _ => {}
  done : Bool := false
  calls : List (Outcome ε) := []
  rejections : Nat := 0
  checks : List Bool := []

/-- the answer of a rate limiter, the clock, the outcome of the function, the context, and the case a select takes -/
structure Env (ε : Type) where
  allow : Bool := true
  now : Int := 0
  later : Int := 0
  outcome : Outcome ε := .nil
  cancel : Bool := false
  pick : Bool := false

def World.tick (w : World ε) (e : Env ε) : World ε := { w with done := w.done || e.cancel }

def World.reject (w : World ε) : World ε := { w with rejections := w.rejections + 1 }

def act : (c : Cmd) → World ε → Env ε → c.Ans ε × World ε
  | .rateAllow _, w, e => (e.allow, if e.allow then w else w.reject)
  | .bpAcquire priority, w, _ =>
    let r := w.backpressure.acquire priority
    (r.1, if r.1 then { w with backpressure := r.2 } else w.reject)
  | .bpRelease, w, e => ((), { w with backpressure := w.backpressure.release e.now })
  | .semAcquire key capacity, w, e =>
    -- the default case only when neither of the others is ready
    if w.done ∧ (e.pick ∨ capacity ≤ w.sem key) then (.ctx, { w with checks := w.checks ++ [true] })
    else if w.sem key < capacity then (.acquired, { w with sem := update w.sem key (w.sem key + 1) })
    else (.full, w.reject)
  | .semRelease key, w, _ => ((), { w with sem := update w.sem key (w.sem key - 1) })
  | .poolAcquire _, w, _ => ((), w.reject)
  | .cbAllow key cfg, w, e =>
    let cb := (w.breakers key).evaluateStateTransitions cfg e.now
    let w' := { w with breakers := update w.breakers key cb }
    if cb.state = .stateOpen then (false, w'.reject) else (true, w')
  | .cbDone key cfg success, w, e =>
    ((), { w with breakers := update w.breakers key ((w.breakers key).recordResult cfg e.now e.later success) })
  | .ctxErr, w, _ => (w.done, { w with checks := w.checks ++ [w.done] })
  | .call, w, e => (e.outcome, { w with calls := w.calls ++ [e.outcome] })
  | .sleep, w, e => (w.done && e.pick, w)

def exec : Code.Exec Cmd (Cmd.Ans ε) (World ε) (Env ε) := fun c w e => some (act c (w.tick e) e)

/-! ## protected calls -/

abbrev Op (ε ρ : Type) := Code Cmd (Cmd.Ans ε) ρ

abbrev access (c : Cmd) : Op ε (c.Ans ε) := cmd c

def Outcome.res : Outcome ε → Res ε
  | .nil => .nil
  | .err e => .err (.fn e)
  | .panic => .panic

def attempt : Option (String × CircuitBreakerConfig) → Op ε (Res ε)
  | none => do
    let o ← access .call
    pure o.res
  | some (key, cfg) => do
    if ← access (.cbAllow key cfg) then do
      match ← access .call with
      | .panic => pure .panic
      | .nil => do
        let _ ← access (.cbDone key cfg true)
        pure .nil
      | .err e => do
        let _ ← access (.cbDone key cfg false)
        pure (.err (.fn e))
    else pure (.err .circuitOpen)

section
variable (fatal : ε → Bool)

def classifier : Err ε → Bool
  | .fn e => !fatal e
  | _ => true

def retryLoop (fn : Op ε (Res ε)) (maxAttempts : Int) : Nat → Op ε (Res ε)
  | 0 => pure (.err (.exhausted maxAttempts none))
  | n + 1 => do
    if ← access .ctxErr then pure (.err .ctx)
    else do
      match ← fn with
      | .nil => pure .nil
      | .panic => pure .panic
      | .err e =>
        if n = 0 ∨ !classifier fatal e then pure (.err (.exhausted maxAttempts (some e)))
        else do
          if ← access .sleep then pure (.err .ctx)
          else retryLoop fn maxAttempts n

def retry (P : Policies) (name : String) (fn : Op ε (Res ε)) : Op ε (Res ε) :=
  match getRetry P name with
  | none => pure (.err (.noRetry name))
  | some cfg => retryLoop fatal fn cfg.maxAttempts cfg.maxAttempts.toNat

def protectInner (P : Policies) (name : String) : Op ε (Res ε) :=
  retry fatal P name (attempt (getCircuitBreaker P name))

def protectBulkhead (P : Policies) (name : String) : Op ε (Res ε) :=
  match getBulkhead P name with
  | none => protectInner fatal P name
  | some (key, cfg) =>
    match cfg.type with
    | .pool => do
      let _ ← access (.poolAcquire key)
      pure (.err .unsupported)
    | .semaphore => do
      match ← access (.semAcquire key cfg.maxConcurrent) with
      | .ctx => pure (.err .ctx)
      | .full => pure (.err .bulkheadFull)
      | .acquired => do
        let r ← protectInner fatal P name
        let _ ← access (.semRelease key)
        pure r

def protectBackpressure (P : Policies) (name : String) : Op ε (Res ε) := do
  if ← access (.bpAcquire 1) then do
    let r ← protectBulkhead fatal P name
    let _ ← access .bpRelease
    pure r
  else pure (.err .shed)

def protect (P : Policies) (name : String) : Op ε (Res ε) :=
  match getRateLimiter P name with
  | none => protectBackpressure fatal P name
  | some (key, ()) => do
    if ← access (.rateAllow key) then protectBackpressure fatal P name
    else pure (.err .rateLimited)

end

/-! ## what is given back -/

/-- the slots and the active tasks are as before -/
structure Frame (w m : World ε) : Prop where
  active : m.backpressure.activeTasks = w.backpressure.activeTasks
  sem : m.sem = w.sem
  rejections : w.rejections ≤ m.rejections

section
variable {w m u : World ε}

theorem Frame.refl (w : World ε) : Frame w w := ⟨rfl, rfl, Nat.le_refl _⟩

theorem Frame.trans (h : Frame w m) (h' : Frame m u) : Frame w u where
  active := h'.active.trans h.active
  sem := h'.sem.trans h.sem
  rejections := Nat.le_trans h.rejections h'.rejections

/-- what an attempt does: one call, or a rejection by the breaker -/
def Attempted (w : World ε) (r : Res ε) (m : World ε) : Prop :=
  Frame w m ∧ m.checks = w.checks ∧ ((∃ o, m.calls = w.calls ++ [o] ∧ r = o.res) ∨
    m.calls = w.calls ∧ (∃ e, r = .err e) ∧ w.rejections < m.rejections)

theorem attempted_call (o : Outcome ε) (hf : Frame w m) (hk : m.checks = w.checks) (hc : m.calls = w.calls ++ [o]) :
    Attempted w o.res m := ⟨hf, hk, .inl ⟨o, hc, rfl⟩⟩

theorem wp_attempt (cb : Option (String × CircuitBreakerConfig)) (w : World ε) :
    (attempt cb).wp exec (Attempted w) w := by
  cases cb with
  | none =>
    intro e o m he
    cases he
    exact attempted_call _ ⟨rfl, rfl, Nat.le_refl _⟩ rfl rfl
  | some p =>
    obtain ⟨key, cfg⟩ := p
    intro e ok m he
    simp only [exec, act, some.injEq] at he
    split at he
    · cases he
      exact ⟨⟨rfl, rfl, Nat.le_succ _⟩, rfl, .inr ⟨rfl, ⟨_, rfl⟩, Nat.lt_succ_self _⟩⟩
    · cases he
      intro e o m he
      cases he
      -- the result is recorded unless the function panics
      cases ho : e.outcome with
      | panic => exact attempted_call .panic ⟨rfl, rfl, Nat.le_refl _⟩ rfl rfl
      | nil =>
        intro e a m he
        cases he
        exact attempted_call .nil ⟨rfl, rfl, Nat.le_refl _⟩ rfl rfl
      | err x =>
        intro e a m he
        cases he
        exact attempted_call (.err x) ⟨rfl, rfl, Nat.le_refl _⟩ rfl rfl

/-- at most `n` calls, of which the last decides on the result -/
structure Tried (n : Nat) (w : World ε) (r : Res ε) (m : World ε) (new : List (Outcome ε)) (asked : List Bool) :
    Prop where
  frame : Frame w m
  calls : m.calls = w.calls ++ new
  checks : m.checks = w.checks ++ asked
  length : new.length ≤ n
  last : r = .nil ↔ new.getLast? = some .nil

theorem tried_none (n : Nat) (e : Err ε) (w : World ε) : Tried n w (.err e) w [] [] :=
  ⟨.refl w, (append_nil _).symm, (append_nil _).symm, Nat.zero_le _, nofun, nofun⟩

/-- what the retries do: unless one is rejected, there is a call exactly when the context is not done at first -/
def Retried (n : Nat) (w : World ε) (r : Res ε) (m : World ε) : Prop :=
  ∃ new asked, Tried n w r m new asked ∧
    (n ≠ 0 → m.rejections = w.rejections → (new ≠ [] ↔ asked.head? ≠ some true))

/-- an attempt has failed, and others follow or none -/
theorem retried_again {n : Nat} {r : Res ε} {before new : List (Outcome ε)} {asked : List Bool} (hf : Frame w u)
    (hc : u.calls = w.calls ++ before) (hk : u.checks = w.checks ++ [false]) (hlen : before.length ≤ 1)
    (hlast : before.getLast? ≠ some .nil) (hne : u.rejections = w.rejections → before ≠ [])
    (h : Tried n u r m new asked) : Retried (n + 1) w r m := by
  refine ⟨before ++ new, false :: asked, ⟨hf.trans h.frame, ?_, ?_, ?_, h.last.trans ?_⟩,
    fun _ hrej => ⟨nofun, fun _ hnil => ?_⟩⟩
  · rw [h.calls, hc, append_assoc]
  · rw [h.checks, hk, append_assoc]
    rfl
  · have := h.length
    rw [length_append]
    omega
  · rw [getLast?_append]
    cases hn : new.getLast? with
    | none =>
      exact ⟨nofun, fun h => absurd h hlast⟩
    | some o => rw [some_or]
  · refine hne ?_ (append_eq_nil_iff.mp hnil).1
    have hle := hf.rejections
    have hle' := h.frame.rejections
    omega

theorem wp_retryLoop {fatal : ε → Bool} {fn : Op ε (Res ε)} (hfn : ∀ w, fn.wp exec (Attempted w) w) (maxAttempts : Int)
    (n : Nat) (w : World ε) : (retryLoop fatal fn maxAttempts n).wp exec (Retried n w) w := by
  induction n generalizing w with
  | zero => exact ⟨[], [], tried_none _ _ w, fun h => absurd rfl h⟩
  | succ n ih =>
    intro e done m he
    have hm : m = { w.tick e with checks := w.checks ++ [done] } := by
      cases he
      rfl
    subst hm
    cases done with
    | true =>
      refine ⟨[], [true], ⟨⟨rfl, rfl, Nat.le_refl _⟩, (append_nil _).symm, rfl, Nat.zero_le _, nofun, nofun⟩,
        fun _ _ => ?_⟩
      exact ⟨fun h => absurd rfl h, fun h => absurd rfl h⟩
    | false =>
      show wp exec (Retried (n + 1) w) (fn.bind _) _
      refine wp_bind.mpr (wp_mono (fun r m h => ?_) (hfn _))
      obtain ⟨hf, hk, hcase⟩ := h
      have hf : Frame w m := ⟨hf.active, hf.sem, hf.rejections⟩
      -- what follows a failure
      have hagain : ∀ (x : Err ε) (before : List (Outcome ε)), m.calls = w.calls ++ before →
          before.length ≤ 1 → before.getLast? ≠ some .nil → (m.rejections = w.rejections → before ≠ []) →
          wp exec (Retried (n + 1) w)
            (if n = 0 ∨ !classifier fatal x then pure (.err (.exhausted maxAttempts (some x)))
            else do
              if ← access .sleep then pure (.err .ctx)
              else retryLoop fatal fn maxAttempts n) m := by
        intro x before hc hlen hlast hne
        split
        · exact retried_again hf hc hk hlen hlast hne (tried_none n _ m)
        intro e cancelled u hs
        have hu : u = m.tick e := by
          cases hs
          rfl
        subst hu
        have hf : Frame w (m.tick e) := ⟨hf.active, hf.sem, hf.rejections⟩
        cases cancelled with
        | true => exact retried_again hf hc hk hlen hlast hne (tried_none n _ _)
        | false =>
          refine wp_mono (fun r m h => ?_) (ih (m.tick e))
          obtain ⟨new, asked, h, -⟩ := h
          exact retried_again hf hc hk hlen hlast hne h
      rcases hcase with ⟨o, hc, rfl⟩ | ⟨hc, ⟨x, rfl⟩, hrej⟩
      · cases o with
        | nil =>
          refine ⟨[.nil], [false], ⟨hf, hc, hk, Nat.succ_le_succ (Nat.zero_le _), ?_⟩, fun _ _ => ?_⟩
          · exact ⟨fun _ => rfl, fun _ => rfl⟩
          · exact ⟨fun _ => nofun, fun _ => nofun⟩
        | panic =>
          refine ⟨[.panic], [false], ⟨hf, hc, hk, Nat.succ_le_succ (Nat.zero_le _), nofun, nofun⟩, fun _ _ => ?_⟩
          exact ⟨fun _ => nofun, fun _ => nofun⟩
        | err x => exact hagain (.fn x) [.err x] hc (Nat.le_refl _) nofun fun _ => nofun
      · refine hagain x [] (by rw [hc, append_nil]; rfl) (Nat.zero_le _) nofun fun heq => ?_
        exact absurd heq (Nat.ne_of_gt hrej)

/-- what is held is given back, the last call decides, and there is one exactly under the condition -/
def Protected (w : World ε) (r : Res ε) (m : World ε) : Prop :=
  Frame w m ∧ ∃ new asked, m.calls = w.calls ++ new ∧ m.checks = w.checks ++ asked ∧
    (r = .nil ↔ new.getLast? = some .nil) ∧ (∀ cfg, getRetry P name = some cfg → (new.length : Int) ≤ cfg.maxAttempts) ∧
    (m.rejections = w.rejections → (new ≠ [] ↔ (getRetry P name).isSome ∧ asked.head? ≠ some true))

section
variable {fatal : ε → Bool} {P : Policies} {name : String}

theorem getRetry_pos {cfg : RetryConfig} (h : getRetry P name = some cfg) : 1 ≤ cfg.maxAttempts := by
  obtain ⟨⟨key, cfg'⟩, hfind, rfl⟩ := map_eq_some_iff.mp h
  have hselect : ∃ p : Policy, p.retry.map newRetryExecutor = some cfg' := by
    unfold find at hfind
    split at hfind
    · rename_i x hx
      cases hfind
      obtain ⟨p, -, hp⟩ := bind_eq_some_iff.mp hx
      exact ⟨p, hp⟩
    · obtain ⟨x, hx, heq⟩ := map_eq_some_iff.mp hfind
      cases heq
      obtain ⟨p, -, hp⟩ := bind_eq_some_iff.mp hx
      exact ⟨p, hp⟩
  obtain ⟨p, hp⟩ := hselect
  obtain ⟨c, -, rfl⟩ := map_eq_some_iff.mp hp
  dsimp only [newRetryExecutor]
  split
  · exact Int.le_refl 1
  · omega

theorem protected_error {e : Err ε} {asked : List Bool} (hf : Frame w m) (hc : m.calls = w.calls)
    (hk : m.checks = w.checks ++ asked)
    (hwhy : (getRetry P name).isSome = true → m.rejections = w.rejections → asked.head? = some true) :
    Protected P name w (.err e) m := by
  refine ⟨hf, [], asked, by rw [hc, append_nil], hk, ⟨nofun, nofun⟩, fun cfg hcfg => ?_, fun hrej => ?_⟩
  · have hpos := getRetry_pos hcfg
    simp only [length_nil]
    omega
  · exact ⟨fun h => absurd rfl h, fun h => absurd (hwhy h.1 hrej) h.2⟩

theorem protected_rejected {e : Err ε} (ha : m.backpressure.activeTasks = w.backpressure.activeTasks)
    (hs : m.sem = w.sem) (hc : m.calls = w.calls) (hk : m.checks = w.checks) (hrej : m.rejections = w.rejections + 1) :
    Protected P name w (.err e) m :=
  protected_error ⟨ha, hs, hrej ▸ Nat.le_succ _⟩ hc (hk.trans (append_nil _).symm) fun _ h => by omega

theorem protected_within {r : Res ε} {v : World ε} (h : Protected P name u r v) (hf : Frame w m)
    (hu : u.calls = w.calls ∧ u.checks = w.checks ∧ u.rejections = w.rejections)
    (hm : m.calls = v.calls ∧ m.checks = v.checks ∧ m.rejections = v.rejections) : Protected P name w r m := by
  obtain ⟨-, new, asked, hnew, hask, hrest⟩ := h
  rw [hu.1] at hnew
  rw [hu.2.1] at hask
  rw [hu.2.2] at hrest
  exact ⟨hf, new, asked, hm.1.trans hnew, hm.2.1.trans hask, hm.2.2.symm ▸ hrest⟩

theorem wp_protectInner (w : World ε) : (protectInner fatal P name).wp exec (Protected P name w) w := by
  unfold protectInner retry
  split
  · rename_i hnone
    refine protected_error (.refl w) rfl (append_nil _).symm fun h => ?_
    rw [hnone] at h
    cases h
  · rename_i cfg hcfg
    refine wp_mono (fun r m h => ?_) (wp_retryLoop (wp_attempt _) cfg.maxAttempts cfg.maxAttempts.toNat w)
    obtain ⟨new, asked, h, hne⟩ := h
    have hpos := getRetry_pos hcfg
    have hlen := h.length
    refine ⟨h.frame, new, asked, h.calls, h.checks, h.last, fun cfg' hcfg' => ?_, fun hrej => ?_⟩
    · cases hcfg.symm.trans hcfg'
      omega
    · rw [hcfg, hne (by omega) hrej]
      exact (and_iff_right rfl).symm

theorem wp_protectBulkhead (w : World ε) : (protectBulkhead fatal P name).wp exec (Protected P name w) w := by
  unfold protectBulkhead
  split
  · exact wp_protectInner w
  rename_i key cfg _
  split
  · -- a pool has nothing to acquire
    intro e a m he
    cases he
    exact protected_rejected rfl rfl rfl rfl rfl
  · intro e slot m he
    simp only [exec, act, some.injEq] at he
    split at he
    · cases he
      exact protected_error ⟨rfl, rfl, Nat.le_refl _⟩ rfl rfl fun _ _ => rfl
    · split at he
      · cases he
        show wp exec (Protected P name w) ((protectInner fatal P name).bind _) _
        refine wp_bind.mpr (wp_mono (fun r v h => ?_) (wp_protectInner _))
        intro e' a m' hrelease
        cases hrelease
        refine protected_within h ⟨h.1.active, ?_, h.1.rejections⟩ ⟨rfl, rfl, rfl⟩ ⟨rfl, rfl, rfl⟩
        -- the slot that was taken is free again
        have hsem : v.sem = update w.sem key (w.sem key + 1) := h.1.sem
        show update v.sem key (v.sem key - 1) = w.sem
        rw [hsem, update_idem, update_self, Nat.add_sub_cancel, update_eq_self]
      · cases he
        exact protected_rejected rfl rfl rfl rfl rfl

theorem acquire_active {b b' : Backpressure} {priority : Nat} (h : b.acquire priority = (true, b')) :
    b'.activeTasks = b.activeTasks + 1 := by
  unfold Backpressure.acquire at h
  dsimp only at h
  split at h
  · split at h
    · cases h
      rfl
    · cases h
  · cases h
    rfl

theorem wp_protectBackpressure (w : World ε) : (protectBackpressure fatal P name).wp exec (Protected P name w) w := by
  intro e ok m he
  have hm : ok = (w.backpressure.acquire 1).1 ∧ m =
      if ok then { w.tick e with backpressure := (w.backpressure.acquire 1).2 } else (w.tick e).reject := by
    cases he
    exact ⟨rfl, rfl⟩
  cases ok with
  | false =>
    rw [hm.2]
    exact protected_rejected rfl rfl rfl rfl rfl
  | true =>
    rw [hm.2, if_pos rfl]
    have hactive := acquire_active (Prod.ext hm.1.symm rfl : w.backpressure.acquire 1 = (true, _))
    show wp exec (Protected P name w) ((protectBulkhead fatal P name).bind _) _
    refine wp_bind.mpr (wp_mono (fun r v h => ?_) (wp_protectBulkhead _))
    intro e' a m' hrelease
    cases hrelease
    refine protected_within h ⟨?_, h.1.sem, h.1.rejections⟩ ⟨rfl, rfl, rfl⟩ ⟨rfl, rfl, rfl⟩
    -- the task that was counted is counted off
    show v.backpressure.activeTasks - 1 = w.backpressure.activeTasks
    rw [h.1.active, hactive]
    exact Int.add_sub_cancel _ _

theorem wp_protect (w : World ε) : (protect fatal P name).wp exec (Protected P name w) w := by
  unfold protect
  split
  · exact wp_protectBackpressure w
  intro e ok m he
  have hm : m = if ok then w.tick e else (w.tick e).reject := by
    cases he
    rfl
  cases ok with
  | false =>
    rw [hm]
    exact protected_rejected rfl rfl rfl rfl rfl
  | true =>
    rw [hm, if_pos rfl]
    refine wp_mono (fun r v h => ?_) (wp_protectBackpressure (w.tick e))
    exact protected_within h ⟨h.1.active, h.1.sem, h.1.rejections⟩ ⟨rfl, rfl, rfl⟩ ⟨rfl, rfl, rfl⟩

end

end

/-! ## runs -/

def fullPolicies : Policies := fun name => if name = "default" then some {
    retry := some ⟨3⟩
    circuitBreaker := some ⟨fun f n => n ≤ 2 * f, 5, 3, 10, 5⟩
    bulkhead := some ⟨.semaphore, 1⟩
    rateLimit := true } else none

/-- the context is done while the second attempt is under way -/
def twoAttempts : List (Env String) :=
  [{}, {}, {}, {}, {}, { outcome := .err "failed" }, {}, {}, {}, {}, { cancel := true }, {}, {}, {}]

end Reliability
