import Cpip.Lib.Pool
import Cpip.Coord.Backend

/-!
# Coordination: the lock service, step by step

`Acquire`, `TryAcquire`, `Renew` and `Release` of both lock services (`coordination/locks` and
`cache/locks`, which differ in one test of `Acquire`) as threads over a shared backend and a clock
that moves between any two steps.

A token is random and is never drawn twice.  The watchdog is a sequence of `Renew` calls.
-/

namespace Coord.Locks

/-- the settings; `drift` is the allowance for a lease, `atOnce` that `Acquire` gives up when it has no timeout -/
structure Config where
  defaultLease : Int := 15000000000
  acquireTimeout : Int := 5000000000
  drift : Int → Int := fun lease => lease / 50
  atOnce : Bool := true

structure Lock where
  fullKey : String
  token : String
  lease : Int
  acquiredAt : Int
  released : Bool := false
  lost : Bool := false
deriving DecidableEq

def Lock.validUntil (cfg : Config) (l : Lock) : Int := l.acquiredAt + (l.lease - cfg.drift l.lease)

structure World where
  now : Int := 0
  backend : Memory := {}
  locks : List Lock := []
  minted : List String := []

inductive Call where
  | wait (d : Nat)
  | acquire (key token : String) (lease timeout : Int)
  | tryAcquire (key token : String) (lease : Int)
  | renew (l : Nat) (lease : Int)
  | release (l : Nat)

/-- the errors of the calls; `backend` is a failing call on the backend, or a cancelled context -/
inductive Err where
  | backend
  | notAcquired
  | notHeld

inductive Pc where
  | wait (d : Nat)
  | mint (key token : String) (lease timeout : Int) (once : Bool)
  | claim (key token : String) (lease timeout deadline : Int) (once : Bool)
  | build (key token : String) (lease start : Int)
  | renewCheck (l : Nat) (lease : Int)
  | renewCall (l : Nat) (lease : Int)
  | renewSet (l : Nat) (lease start : Int)
  | releaseFlag (l : Nat)
  | releaseCall (l : Nat)
  | returned (err : Option Err)

def Call.entry : Call → Pc
  | .wait d => .wait d
  | .acquire key token lease timeout => .mint key token lease timeout false
  | .tryAcquire key token lease => .mint key token lease 0 true
  | .renew l lease => .renewCheck l lease
  | .release l => .releaseFlag l

inductive Reply where
  | ok
  | fail

section
variable (cfg : Config)

def Config.lease (lease : Int) : Int := if 0 < lease then lease else cfg.defaultLease

def Config.timeout (timeout : Int) : Int := if 0 < timeout then timeout else cfg.acquireTimeout

/-- one access of a call; the third argument of `build` and `renewSet` is the time of the call on the
backend, for the record -/
def Pc.next (w : World) : Pc → Reply → Option (Pc × World)
  | .wait d, _ => some (.returned none, { w with now := w.now + d })
  -- Acquire, TryAcquire
  | .mint key token lease timeout once, _ =>
    if token ∈ w.minted then none
    else
      let timeout := if once then 0 else cfg.timeout timeout
      some (.claim key token (cfg.lease lease) timeout (w.now + timeout) once,
        { w with minted := token :: w.minted })
  | .claim _ _ _ _ _ _, .fail => some (.returned (some .backend), w)
  | .claim key token lease timeout deadline once, .ok =>
    match w.backend.setNX w.now key token lease with
    | (true, m) => some (.build key token lease w.now, { w with backend := m })
    | (false, m) =>
      if once ∨ (cfg.atOnce ∧ timeout ≤ 0) ∨ deadline < w.now then
        some (.returned (some .notAcquired), { w with backend := m })
      else some (.claim key token lease timeout deadline once, { w with backend := m })
  -- newLock
  | .build key token lease _, _ =>
    some (.returned none, { w with locks := w.locks ++ [⟨key, token, lease, w.now, false, false⟩] })
  -- Renew
  | .renewCheck l lease, _ =>
    match w.locks[l]? with
    | none => none
    | some x =>
      if x.released then some (.returned (some .notHeld), w)
      else some (.renewCall l (if lease ≤ 0 then x.lease else lease), w)
  | .renewCall _ _, .fail => some (.returned (some .backend), w)
  | .renewCall l lease, .ok =>
    match w.locks[l]? with
    | none => none
    | some x =>
      match w.backend.compareAndExpire w.now x.fullKey x.token lease with
      | (true, m) => some (.renewSet l lease w.now, { w with backend := m })
      | (false, m) => some (.returned (some .notHeld),
          { w with backend := m, locks := w.locks.set l { x with lost := true } })
  | .renewSet l lease _, _ =>
    match w.locks[l]? with
    | none => none
    | some x => some (.returned none,
        { w with locks := w.locks.set l { x with lease := lease, acquiredAt := w.now } })
  -- Release
  | .releaseFlag l, _ =>
    match w.locks[l]? with
    | none => none
    | some x =>
      if x.released then some (.returned none, w)
      else some (.releaseCall l, { w with locks := w.locks.set l { x with released := true } })
  | .releaseCall _, .fail => some (.returned (some .backend), w)
  | .releaseCall l, .ok =>
    match w.locks[l]? with
    | none => none
    | some x =>
      match w.backend.compareAndDelete w.now x.fullKey x.token with
      | (true, m) => some (.returned none, { w with backend := m })
      | (false, m) => some (.returned (some .notHeld), { w with backend := m })
  | .returned _, _ => none

/-- **the calls on the lock service as threads** -/
def locks : Pool.Prog Call World Pc Reply := ⟨Call.entry, fun pc w r => pc.next cfg w r⟩

end

/-! ## pieces of runs -/

def steps (i n : Nat) : List (Pool.Act Call Reply) := List.replicate n (.step i .ok)

def call (i : Nat) (c : Call) (n : Nat) : List (Pool.Act Call Reply) := .spawn i c :: steps i n

end Coord.Locks
