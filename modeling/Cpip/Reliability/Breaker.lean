import Cpip.Reliability.Protect

/-!
# Reliability: the periods of a circuit breaker

* `results_current`  **a breaker moves by the requests of its present period only**, see also
  `late_result_postpones`.
-/

namespace Reliability.CircuitBreaker

open Lts Function

/-- `period` counts the changes of state, `running` has the period of each request, `won` the present successes -/
structure Watched where
  cb : CircuitBreaker := {}
  period : Nat := 0
  running : Nat → Option Nat := fun _ => none
  won : Nat := 0

inductive Event where
  | allow (i : Nat) (now : Int)
  | done (i : Nat) (now later : Int) (success : Bool)

variable (cfg : CircuitBreakerConfig) (s : Watched)

def Watched.become (cb : CircuitBreaker) : Watched :=
  if cb.state = s.cb.state then { s with cb } else { s with cb, period := s.period + 1, won := 0 }

/-- `Allow` of a request, and the function it returned -/
def step : Event → Option Watched
  | .allow i now =>
    let t := s.become (s.cb.evaluateStateTransitions cfg now)
    if (s.running i).isSome then none
    else if t.cb.state = .stateOpen then some t
    else some { t with running := update t.running i (some t.period) }
  | .done i now later success =>
    (s.running i).map fun p =>
      let t := { s with
        running := update s.running i none
        won := if success ∧ p = s.period then s.won + 1 else s.won }
      t.become (s.cb.recordResult cfg now later success)

/-- a result comes in the period of its request -/
def Current : Event → Prop
  | .allow _ _ => True
  | .done i _ _ _ => s.running i = some s.period

instance : ∀ e, Decidable (Current s e) := by
  intro e
  unfold Current
  split <;> infer_instance

/-- the step is due to a request of the present period, if it closes the breaker or opens it again -/
structure Proper (s : Watched) (e : Event) (t : Watched) : Prop where
  waits : s.cb.state = .stateOpen → t.cb.state = .stateOpen → t.cb.openedAt = s.cb.openedAt
  closes : s.cb.state = .stateHalfOpen → t.cb.state = .stateClosed →
    cfg.successThreshold ≤ s.won + 1 ∧ ∃ i now later, e = .done i now later true ∧ s.running i = some s.period
  reopens : s.cb.state = .stateHalfOpen → t.cb.state = .stateOpen →
    ∃ i now later, e = .done i now later false ∧ s.running i = some s.period

structure Counted : Prop where
  past : ∀ i p, s.running i = some p → p ≤ s.period
  idle : s.cb.state = .stateOpen → ∀ i, s.running i ≠ some s.period
  won : s.cb.state = .stateHalfOpen → s.cb.halfOpenSuccesses = s.won

variable {cfg s} {t : Watched} {i : Nat} {now : Int}

theorem counted_allow (h : Counted s) (hs : step cfg s (.allow i now) = some t) :
    Counted t ∧ Proper cfg s (.allow i now) t := by
  obtain ⟨hpast, hidle, hwon⟩ := h
  by_cases ho : s.cb.state = .stateOpen ∧ cfg.recoveryTimeout ≤ now - s.cb.openedAt
  · -- a new period, with this request
    have hne : s.cb.state ≠ .stateHalfOpen := by simp [ho.1]
    simp only [step, evaluateStateTransitions, if_pos ho, transitionTo, Watched.become, if_neg hne.symm] at hs
    split at hs <;> cases hs
    refine ⟨⟨?_, ?_, ?_⟩, ⟨?_, ?_, ?_⟩⟩ <;> grind [update_apply]
  · simp only [step, evaluateStateTransitions, if_neg ho, Watched.become, if_true] at hs
    repeat' split at hs
    all_goals cases hs
    all_goals refine ⟨⟨?_, ?_, ?_⟩, ⟨?_, ?_, ?_⟩⟩ <;> grind [update_apply]

theorem counted_done {later : Int} {success : Bool} (h : Counted s) (hi : s.running i = some s.period)
    (hs : step cfg s (.done i now later success) = some t) :
    Counted t ∧ Proper cfg s (.done i now later success) t := by
  obtain ⟨hpast, hidle, hwon⟩ := h
  -- no request is admitted while the breaker is open
  have hopen : s.cb.state ≠ .stateOpen := fun ho => hidle ho i hi
  simp only [step, hi, Option.map_some, Option.some.injEq, and_true] at hs
  subst hs
  by_cases hhalf : s.cb.state = .stateHalfOpen
  · have hwon := hwon hhalf
    cases success with
    | false =>
      simp only [recordResult, hhalf, transitionTo, Watched.become, if_true, reduceCtorEq, if_false,
        Bool.false_eq_true]
      refine ⟨⟨?_, ?_, ?_⟩, ⟨?_, ?_, ?_⟩⟩ <;> grind [update_apply]
    | true =>
      simp only [recordResult, if_pos hhalf, transitionTo, if_true]
      split <;> simp only [Watched.become, hhalf, reduceCtorEq, if_true, if_false] <;>
        refine ⟨⟨?_, ?_, ?_⟩, ⟨?_, ?_, ?_⟩⟩ <;> grind [update_apply]
  · generalize (if success = true then s.won + 1 else s.won) = won
    simp only [recordResult, if_neg hhalf, transitionTo]
    split <;> simp only [Watched.become, if_true, if_neg hopen.symm] <;>
      refine ⟨⟨?_, ?_, ?_⟩, ⟨?_, ?_, ?_⟩⟩ <;> grind [update_apply]

theorem counted_step (s : Watched) (e : Event) (t : Watched) (h : Counted s) (hC : Current s e)
    (hs : step cfg s e = some t) : Counted t ∧ Proper cfg s e t := by
  cases e with
  | allow i now => exact counted_allow h hs
  | done i now later success => exact counted_done h hC hs

/-- **every step of a run whose results come in the period of their requests is proper** -/
theorem results_current {es : List Event} (hC : Along (step cfg) Current {} es) :
    Along (step cfg) (fun s e => ∀ t, step cfg s e = some t → Proper cfg s e t) {} es := by
  have h0 : Counted {} := ⟨fun _ _ h => (by cases h), fun h => (by cases h), fun h => (by cases h)⟩
  have hinv := along_inv (fun s e t h hC hs => (counted_step s e t h hC hs).1) h0 hC
  exact along_mono (fun s e h t hs => (counted_step s e t h.1 h.2 hs).2) _ _ (along_and hinv hC)

/-- one failure opens the breaker for ten units, one success closes it -/
def strict : CircuitBreakerConfig := ⟨fun failures _ => 0 < failures, 10, 1, 100, 1⟩

theorem results_current_recovery :
    Along (step strict) (fun s e => ∀ t, step strict s e = some t → Proper strict s e t) {}
      [.allow 0 0, .done 0 1 1 false, .allow 1 11, .done 1 12 12 true] :=
  results_current (by decide +kernel)

/-- **a failure that comes while the breaker is open postpones its reopening** -/
theorem late_result_postpones : ∃ s ∈ run (step strict) {} [.allow 0 0, .allow 1 0, .done 0 1 1 false],
    ∃ t ∈ step strict s (.done 1 5 5 false), s.cb.state = .stateOpen ∧ t.cb.state = .stateOpen ∧
      s.cb.openedAt = 1 ∧ t.cb.openedAt = 5 := by
  decide +kernel

end Reliability.CircuitBreaker
