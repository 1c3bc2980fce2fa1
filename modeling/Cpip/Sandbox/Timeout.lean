import Cpip.Sandbox.Steps

/-!
# Sandbox: deadlines

`TimeoutController.CheckDeadlines` on one session, tick after tick, with no other transition in between and
with hooks that succeed.

* `timeouts_once`  **a deadline takes effect once**, from a state with an edge to `timedOut`.

From the other states the transition is refused and its error dropped: each tick finds the deadline again,
see `timeout_repeats`.
-/

namespace Sandbox

structure TimeoutController where
  idleTimeout : Int
  setupTimeout : Int

/-- an `ExecutionTimedOut` event, by its origin -/
inductive TimeoutEvent where
  | lifecycle
  | timeout (reason : String)
deriving DecidableEq

/-- the session, its timeout events, and the seconds given to `StopContainer` -/
structure Session where
  state : State
  createdAt : Int
  expiresAt : Int
  lastActivity : Option Int := none
  containerID : String := ""
  timeouts : List TimeoutEvent := []
  stops : List Int := []

/-- the time of a tick, and whether the container stops within its grace period -/
structure Tick where
  now : Int
  stopped : Bool := true

def State.exempt (st : State) : Bool := st ∈ [.timedOut, .failed, .completed, .terminating, .cleaning, .destroyed]

variable (tc : TimeoutController) (s : Session)

/-- the deadline that a tick finds exceeded -/
def exceeded (now : Int) : Option String :=
  if s.state.exempt then none
  else if (s.state = .created ∨ s.state = .preparing) ∧ now - s.createdAt > tc.setupTimeout then
    some "Startup timeout reached"
  else if s.state = .ready ∧ now - s.lastActivity.getD s.createdAt > tc.idleTimeout then some "Idle timeout reached"
  else if now > s.expiresAt then some "Execution deadline exceeded"
  else none

def handleTimeout (stopped : Bool) (reason : String) : Session :=
  -- `Transition` publishes an event of its own; its error is dropped
  let s :=
    if validateTransition s.state .timedOut then { s with state := .timedOut, timeouts := s.timeouts ++ [.lifecycle] }
    else s
  if s.containerID = "" then s
  else { s with timeouts := s.timeouts ++ [.timeout reason], stops := s.stops ++ if stopped then [2] else [2, 0] }

def checkDeadlines (t : Tick) : Session := (exceeded tc s t.now).elim s (handleTimeout s t.stopped)

def ticks (ts : List Tick) : Session := ts.foldl (checkDeadlines tc) s

/-- the session is not watched, or has an edge to `timedOut` -/
def Session.Ends : Prop := s.state.exempt = true ∨ validateTransition s.state .timedOut = true

variable {tc s}

theorem exceeded_exempt (h : s.state.exempt = true) (now : Int) : exceeded tc s now = none := if_pos h

theorem ticks_exempt (h : s.state.exempt = true) (ts : List Tick) : ticks tc s ts = s := by
  induction ts with
  | nil => rfl
  | cons t ts ih =>
    show ticks tc (checkDeadlines tc s t) ts = s
    rw [checkDeadlines, exceeded_exempt h]
    exact ih

theorem state_timedOut {t : Tick} (hs : s.Ends) (h : exceeded tc s t.now ≠ none) :
    (checkDeadlines tc s t).state = .timedOut := by
  have hedge : validateTransition s.state .timedOut = true := hs.resolve_left fun hex => h (exceeded_exempt hex _)
  obtain ⟨reason, hr⟩ := Option.ne_none_iff_exists'.mp h
  rw [checkDeadlines, hr]
  show (handleTimeout s t.stopped reason).state = _
  unfold handleTimeout
  rw [if_pos hedge]
  dsimp only
  split <;> rfl

theorem ends_ticks (hs : s.Ends) (ts : List Tick) : (ticks tc s ts).Ends := by
  induction ts generalizing s with
  | nil => exact hs
  | cons t ts ih =>
    refine ih (s := checkDeadlines tc s t) ?_
    by_cases h : exceeded tc s t.now = none
    · rw [checkDeadlines, h]
      exact hs
    · exact .inl (by rw [state_timedOut hs h]; rfl)

/-- **A deadline takes effect once**: a tick that finds it leaves the session timed out, and later ticks find
nothing. -/
theorem timeouts_once (hs : s.Ends) (before : List Tick) (t : Tick)
    (h : exceeded tc (ticks tc s before) t.now ≠ none) :
    let s' := checkDeadlines tc (ticks tc s before) t
    s'.state = .timedOut ∧ ∀ after now, ticks tc s' after = s' ∧ exceeded tc s' now = none := by
  intro s'
  have hout : s'.state = .timedOut := state_timedOut (ends_ticks hs before) h
  have hex : s'.state.exempt = true := by
    rw [hout]
    rfl
  exact ⟨hout, fun after now => ⟨ticks_exempt hex after, exceeded_exempt hex now⟩⟩

/-- five units may pass while a session is ready, one while it is set up -/
def brief : TimeoutController := ⟨5, 1⟩

def session (state : State) : Session := { state, createdAt := 0, expiresAt := 60, containerID := "c" }

theorem timeouts_once_running :
    let s := ticks brief (session .running) [⟨4, true⟩, ⟨61, false⟩, ⟨62, true⟩]
    s.state = .timedOut ∧ s.timeouts = [.lifecycle, .timeout "Execution deadline exceeded"] ∧ s.stops = [2, 0] := by
  have h := @timeouts_once brief (session .running) (.inr rfl) [⟨4, true⟩] ⟨61, false⟩ (by decide)
  have hlater := (h.2 [⟨62, true⟩] 62).1
  intro s
  have hs : s = checkDeadlines brief (ticks brief (session .running) [⟨4, true⟩]) ⟨61, false⟩ := hlater
  rw [hs]
  exact ⟨h.1, by decide, by decide⟩

/-- a session that was ready for too long stays so, and each tick reports it and stops its container again -/
theorem timeout_repeats :
    let s := ticks brief (session .ready) [⟨10, true⟩, ⟨11, true⟩]
    s.state = .ready ∧ s.timeouts = [.timeout "Idle timeout reached", .timeout "Idle timeout reached"] ∧
      s.stops = [2, 2] := by
  decide

end Sandbox
