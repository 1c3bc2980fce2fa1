import Cpip.Lib.Code
import Cpip.Cache.Emulator
import Cpip.Cache.Keys

/-!
# Cache: the session store

`sessions.Store` over the emulator: a session is one document under its own key, and the sessions of a user
are in an index set.  Each access to the backend is a command of its own, and so is a look at the clock.

The backend does not fail.
-/

namespace Cache.Sessions

open Expiry

/-! ## documents -/

/-- `sessions.Session`; a zero `ExpiresAt` is `none` -/
structure Session where
  id : String
  userID : String
  deviceID : String
  createdAt : Int
  lastSeenAt : Int
  expiresAt : Option Int
  version : Int64
  data : List (String × String)
deriving DecidableEq

def Session.expired (s : Session) (now : Int) : Bool :=
  match s.expiresAt with
  | none => false
  | some t => t < now

def Session.bump (s : Session) : Session := { s with version := s.version + 1 }

structure Codec where
  marshal : Session → Option String
  unmarshal : String → Option Session
  round : ∀ {s raw}, marshal s = some raw → unmarshal raw = some s
  empty : unmarshal "" = none

def tableCodec (known : List Session) : Codec where
  marshal s := (known.idxOf? s).map fun i => String.ofList (List.replicate (i + 1) 'x')
  unmarshal raw := if raw.length = 0 then none else known[raw.length - 1]?
  round := by
    intro s raw h
    obtain ⟨i, hi, rfl⟩ := Option.map_eq_some_iff.mp h
    rw [String.length_ofList, List.length_replicate, if_neg (Nat.succ_ne_zero i), Nat.add_sub_cancel]
    obtain ⟨hlt, hs, -⟩ := List.findIdx?_eq_some_iff_getElem.mp hi
    rw [List.getElem?_eq_getElem hlt, eq_of_beq hs]
  empty := rfl

inductive Err where
  | sessionNotFound
  | sessionExpired
  | sessionConflict
  | serialization
  | deserialization
  | mutate (msg : String)

abbrev Mutation := Int → Session → Except String Session

structure CreateParams where
  userID : String
  deviceID : String := ""
  ttl : Int := 0
  data : List (String × String) := []
deriving DecidableEq

structure Store where
  keys : Builder
  codec : Codec
  defaultTTL : Int

def maxCASRetry : Nat := 5

/-! ## commands -/

structure World where
  redis : Emulator := {}
  made : List String := []

/-- the accesses; an entry that a listing takes off the index is `dangling` -/
inductive Cmd where
  | clock
  | newSessionID
  | get (key : String)
  | set (key value : String) (ttl : Int)
  | compareAndSet (key expected newValue : String) (ttl : Int)
  | del (key : String)
  | sAdd (key member : String)
  | sRem (key member : String) (dangling : Bool)
  | sMembers (key : String)
deriving DecidableEq

abbrev Cmd.Ans : Cmd → Type
  | .clock => Int
  | .newSessionID => String
  | .get _ => Option String
  | .compareAndSet _ _ _ _ => Bool
  | .sMembers _ => List String
  | _ => Unit

structure Env where
  now : Int
  fresh : String := ""
  order : List String := []

/-- one access; a random identifier that was used before does not come up -/
def exec : Code.Exec Cmd Cmd.Ans World Env
  | .clock, w, e => some (e.now, w)
  | .newSessionID, w, e => some (e.fresh, w)
  | .get key, w, e =>
    let r := w.redis.get e.now key
    some (r.1, { w with redis := r.2 })
  | .set key value ttl, w, e =>
    if key ∈ w.made then none
    else some ((), { redis := w.redis.set e.now key value ttl, made := key :: w.made })
  | .compareAndSet key expected newValue ttl, w, e =>
    let r := w.redis.compareAndSet e.now key expected newValue ttl
    some (r.1, { w with redis := r.2 })
  | .del key, w, e => some ((), { w with redis := (w.redis.del e.now [key]).2 })
  | .sAdd key member, w, e => some ((), { w with redis := (w.redis.sAdd e.now key [member]).2 })
  | .sRem key member _, w, e => some ((), { w with redis := (w.redis.sRem e.now key [member]).2 })
  | .sMembers key, w, e =>
    let r := w.redis.sMembers e.now key
    if e.order.Nodup ∧ e.order.toFinset = r.1 then some (e.order, { w with redis := r.2 }) else none

abbrev Op (ρ : Type) := Code Cmd Cmd.Ans ρ

abbrev access (c : Cmd) : Op c.Ans := Code.cmd c

/-! ## operations -/

section
variable (S : Store)

def create (p : CreateParams) : Op (Except Err Session) := do
  let ttl := if p.ttl ≤ 0 then S.defaultTTL else p.ttl
  let now ← access .clock
  let id ← access .newSessionID
  let sess : Session := {
    id
    userID := p.userID
    deviceID := p.deviceID
    createdAt := now
    lastSeenAt := now
    expiresAt := some (now + ttl)
    version := 1
    data := p.data }
  match S.codec.marshal sess with
  | none => pure (.error .serialization)
  | some raw =>
    access (.set (S.keys.session id) raw ttl)
    if p.userID ≠ "" then access (.sAdd (S.keys.userSessions p.userID) id)
    pure (.ok sess)

variable (id : String)

def getRaw : Op (Except Err (String × Session)) := do
  match ← access (.get (S.keys.session id)) with
  | none => pure (.error .sessionNotFound)
  | some raw =>
    match S.codec.unmarshal raw with
    | none => pure (.error .deserialization)
    | some sess => pure (.ok (raw, sess))

def invalidate : Op Unit := do
  match ← getRaw S id with
  | .ok (_, sess) => if sess.userID ≠ "" then access (.sRem (S.keys.userSessions sess.userID) id false)
  | .error _ => pure ()
  access (.del (S.keys.session id))

def get : Op (Except Err Session) := do
  match ← getRaw S id with
  | .error err => pure (.error err)
  | .ok (_, sess) =>
    let now ← access .clock
    if sess.expired now then
      invalidate S id
      pure (.error .sessionExpired)
    else pure (.ok sess)

def ttlOf (sess : Session) (now : Int) : Int :=
  match sess.expiresAt with
  | none => S.defaultTTL
  | some t => if t - now ≤ 0 then S.defaultTTL else t - now

def update (id : String) (mutate : Mutation) : Nat → Op (Except Err Session)
  | 0 => pure (.error .sessionConflict)
  | n + 1 => do
    match ← getRaw S id with
    | .error err => pure (.error err)
    | .ok (raw, sess) =>
      let now ← access .clock
      if sess.expired now then
        invalidate S id
        pure (.error .sessionExpired)
      else
        let now ← access .clock
        match mutate now sess with
        | .error msg => pure (.error (.mutate msg))
        | .ok sess =>
          match S.codec.marshal sess.bump with
          | none => pure (.error .serialization)
          | some newRaw =>
            let now ← access .clock
            if ← access (.compareAndSet (S.keys.session id) raw newRaw (ttlOf S sess.bump now)) then
              pure (.ok sess.bump)
            else update id mutate n

def renewal (ttl : Int) : Mutation := fun now sess =>
  .ok { sess with
    lastSeenAt := now
    expiresAt := some (now + if ttl ≤ 0 then S.defaultTTL else ttl) }

def renew (ttl : Int) : Op (Except Err Session) := update S id (renewal S ttl) maxCASRetry

def listEach (userID : String) : List String → List Session → Op (Except Err (List Session))
  | [], out => pure (.ok out)
  | id :: ids, out => do
    match ← get S id with
    | .ok sess => listEach userID ids (out ++ [sess])
    | .error .sessionNotFound =>
      access (.sRem (S.keys.userSessions userID) id true)
      listEach userID ids out
    | .error .sessionExpired =>
      access (.sRem (S.keys.userSessions userID) id true)
      listEach userID ids out
    | .error err => pure (.error err)

def listByUser (userID : String) : Op (Except Err (List Session)) := do
  let ids ← access (.sMembers (S.keys.userSessions userID))
  listEach S userID ids []

/-- `InvalidateUser`; every session that is listed is counted -/
def invalidateUser (userID : String) : Op Nat := do
  let ids ← access (.sMembers (S.keys.userSessions userID))
  Code.each (invalidate S) ids
  access (.del (S.keys.userSessions userID))
  pure ids.length

def doc (w : World) (id : String) : Option Session :=
  match w.redis.data.lookup (S.keys.session id) with
  | some ⟨.str raw, _⟩ => S.codec.unmarshal raw
  | _ => none

end

section
variable {S : Store} {id : String}

theorem doc_eq_some {w : World} {d : Session} : doc S w id = some d ↔
      ∃ raw x, w.redis.data.lookup (S.keys.session id) = some ⟨.str raw, x⟩ ∧ S.codec.unmarshal raw = some d := by
  unfold doc
  constructor
  · intro h
    split at h
    · rename_i raw x hl
      exact ⟨raw, x, hl, h⟩
    · cases h
  · rintro ⟨raw, x, hl, hd⟩
    rw [hl]
    exact hd

theorem doc_of_lookup {w m : World}
    (h : ∀ x, m.redis.data.lookup (S.keys.session id) = some x → w.redis.data.lookup (S.keys.session id) = some x)
    {d : Session} (hd : doc S m id = some d) : doc S w id = some d := by
  obtain ⟨raw, x, hl, hu⟩ := doc_eq_some.mp hd
  exact doc_eq_some.mpr ⟨raw, x, h _ hl, hu⟩

end

end Cache.Sessions
