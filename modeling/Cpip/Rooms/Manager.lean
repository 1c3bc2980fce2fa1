import Cpip.Lib.Code
import Cpip.Rooms.Room

/-!
# Rooms: the managers, step by step

`rooms.Manager` and `membership.Manager` for one room.  Each call of a method of the room, of the registry, of the
event bus or of the repository is a command of its own.

Metrics, logs, the id of the room in events, and a manager without a repository are left out.
-/

namespace Rooms

open Code Pool

/-! ## events and snapshots -/

inductive EventType where
  | roomCreated
  | roomClosed
  | roomDestroyed
  | userJoined
  | userLeft
  | ownerChanged
  | roomExpired
  | roomRecovered
  | membershipUpdated
  | stateChanged
deriving DecidableEq

structure Event where
  type : EventType
  actorID : String := ""
  targetID : String := ""
  role : Role := .observer
  src : State := .created
  dst : State := .created
  reason : String := ""
  time : Int

def Event.changed (actorID : String) (src dst : State) (now : Int) : Event where
  type := .stateChanged
  actorID := actorID
  src := src
  dst := dst
  time := now

structure ParticipantSnapshot where
  userID : String
  role : Role
  joinedAt : Int
  lastSeen : Int
  connected : Bool
  metadata : Option Metadata
deriving DecidableEq

structure Snapshot where
  id : String
  name : String
  ownerID : String
  state : State
  createdAt : Int
  lastActivity : Int
  maxParticipants : Int
  visibility : Visibility
  metadata : Option Metadata
  participants : List ParticipantSnapshot
deriving DecidableEq

/-- what `saveRoomSnapshot` takes of a room -/
def Room.snapshot (r : Room) : Snapshot where
  id := r.id
  name := r.name
  ownerID := r.ownerID
  state := r.state
  createdAt := r.createdAt
  lastActivity := r.lastActivity
  maxParticipants := r.cfg.maxParticipants
  visibility := r.cfg.visibility
  metadata := r.metadata
  participants := r.participants.list.map fun p => ⟨p.userID, p.role, p.joinedAt, p.lastSeen, p.connected, p.metadata⟩

inductive Write where
  | save (snap : Snapshot)
  | delete (id : String)

/-! ## the commands -/

/-- a room, whether it is registered, the events and writes; `made` are the changes of its state -/
structure World where
  room : Room
  registered : Bool := true
  published : List Event := []
  handed : List Write := []
  made : List (State × State) := []

def change (src dst : State) : List (State × State) := if src = dst then [] else [(src, dst)]

def World.set (w : World) (r : Room) : World := { w with room := r, made := w.made ++ change w.room.state r.state }

inductive Cmd where
  | get
  | join (req : JoinRequest) (now : Int)
  | leave (userID : String) (now : Int)
  | remove (actorID targetID : String) (now : Int)
  | transferOwnership (actorID newOwnerID : String) (now : Int)
  | setConnected (userID : String) (connected : Bool) (connID sessionID : String) (now : Int)
  | touch (now : Int)
  | transition (dst : State) (now : Int)
  | authorize (actorID : String) (action : Action)
  | config
  | participants
  | state
  | lastActivity
  | connectedCount
  | publish (e : Event)
  | save
  | deregister
  | delete

abbrev Cmd.Ans : Cmd → Type
  | .get | .touch _ => Bool
  | .join _ _ => Except Error JoinResult
  | .leave _ _ | .remove _ _ _ => Except Error LeaveResult
  | .transferOwnership _ _ _ => Except Error TransferResult
  | .setConnected _ _ _ _ _ => Option (Participant × Bool)
  | .transition _ _ | .authorize _ _ => Except Error Unit
  | .config => Config
  | .participants => List Participant
  | .state => State
  | .lastActivity => Int
  | .connectedCount => Nat
  | _ => Unit

def World.settle {α : Type} (w : World) : Except Error (α × Room) → Except Error α × World
  | .ok (a, r) => (.ok a, w.set r)
  | .error e => (.error e, w)

/-- one command; the environment chooses the order in which the participants are listed -/
@[simp]
def exec : Exec Cmd Cmd.Ans World (List Participant)
  | .get, w, _ => some (w.registered, w)
  | .join req now, w, _ => some (w.settle (w.room.join req now))
  | .leave userID now, w, _ => some (w.settle (w.room.leave userID now))
  | .remove actorID targetID now, w, _ => some (w.settle (w.room.remove actorID targetID now))
  | .transferOwnership actorID newOwnerID now, w, _ => some (w.settle (w.room.transferOwnership actorID newOwnerID now))
  | .setConnected userID connected connID sessionID now, w, _ =>
    match w.room.setConnected userID connected connID sessionID now with
    | none => some (none, w)
    | some (p, nowEmpty, r) => some (some (p, nowEmpty), w.set r)
  | .touch now, w, _ => some ((w.room.touch now).1, w.set (w.room.touch now).2)
  | .transition dst now, w, _ => some (w.settle ((w.room.transition dst now).map fun r => ((), r)))
  | .authorize actorID action, w, _ => some (w.room.authorize actorID action, w)
  | .config, w, _ => some (w.room.cfg, w)
  | .participants, w, order => if order.Perm w.room.participants.list then some (order, w) else none
  | .state, w, _ => some (w.room.state, w)
  | .lastActivity, w, _ => some (w.room.lastActivity, w)
  | .connectedCount, w, _ => some (w.room.participants.connectedCount, w)
  | .publish e, w, _ => some ((), { w with published := w.published ++ [e] })
  | .save, w, _ => some ((), { w with handed := w.handed ++ [.save w.room.snapshot] })
  | .deregister, w, _ => some ((), { w with registered := false })
  | .delete, w, _ => some ((), { w with handed := w.handed ++ [.delete w.room.id] })

/-- what a command does to the room, unless it leaves it as it is -/
inductive Effect : Cmd → Room → Room → Prop where
  | join {r : Room} {req : JoinRequest} {now : Int} {p : Participant} :
    r.state.ended = false → p.connected = true → p.userID = req.userID → Effect (.join req now) r (r.entered p now)
  | leave {r : Room} {userID : String} {now : Int} : Effect (.leave userID now) r (r.without userID now)
  | remove {r : Room} {actorID targetID : String} {now : Int} :
    Effect (.remove actorID targetID now) r (r.without targetID now)
  | transferOwnership {r : Room} {actorID newOwnerID : String} {now : Int} {ms : Members} :
    (∀ u q, ms.find u = some q → ∃ p, r.participants.find u = some p ∧ q.connected = p.connected) →
    Effect (.transferOwnership actorID newOwnerID now) r
      { r with participants := ms, ownerID := newOwnerID, lastActivity := now }
  | setConnected {r : Room} {userID connID sessionID : String} {connected : Bool} {now : Int} {p : Participant} :
    p.userID = userID → p.connected = connected → Effect (.setConnected userID connected connID sessionID now) r
      { r with participants := r.participants.put p, lastActivity := if connected then now else r.lastActivity }
  | touch {r : Room} {now : Int} : Effect (.touch now) r { r with state := Room.driven r.state, lastActivity := now }
  | transition {r : Room} {dst : State} {now : Int} : validate r.state dst = true → Effect (.transition dst now) r
      { r with state := dst, lastActivity := if dst = .active ∧ r.state ≠ dst then now else r.lastActivity }

theorem settle_cases {α : Type} {w m : World} {x : Except Error (α × Room)} {a : Except Error α}
    (h : some (w.settle x) = some (a, m)) :
    (∃ e, x = .error e ∧ a = .error e) ∧ m = w ∨ ∃ b r, x = .ok (b, r) ∧ a = .ok b ∧ m = w.set r := by
  cases x with
  | error e =>
    cases h
    exact .inl ⟨⟨e, rfl, rfl⟩, rfl⟩
  | ok y =>
    cases h
    exact .inr ⟨y.1, y.2, rfl, rfl, rfl⟩

/-- **What a command does to the room.** -/
theorem room_exec {c : Cmd} {s m : World} {e : List Participant} {a : c.Ans} (h : exec c s e = some (a, m)) :
    m.room = s.room ∨ Effect c s.room m.room := by
  cases c with
  | join req now =>
    rcases settle_cases h with ⟨-, rfl⟩ | ⟨res, r, hj, -, rfl⟩
    · exact .inl rfl
    · obtain ⟨hopen, p, hp, hu, hr, -⟩ := Room.join_ok hj
      exact .inr (hr ▸ .join hopen hp hu)
  | leave userID now =>
    rcases settle_cases h with ⟨-, rfl⟩ | ⟨res, r, hl, -, rfl⟩
    · exact .inl rfl
    · exact .inr ((Room.leave_ok hl).2.1 ▸ .leave)
  | remove actorID targetID now =>
    rcases settle_cases h with ⟨-, rfl⟩ | ⟨res, r, hl, -, rfl⟩
    · exact .inl rfl
    · exact .inr ((Room.leave_ok (Room.remove_ok hl).1).2.1 ▸ .remove)
  | transferOwnership actorID newOwnerID now =>
    rcases settle_cases h with ⟨-, rfl⟩ | ⟨res, r, ht, -, rfl⟩
    · exact .inl rfl
    · obtain ⟨ms, hr, hms⟩ := Room.transferOwnership_frame ht
      exact .inr (hr ▸ .transferOwnership hms)
  | setConnected userID connected connID sessionID now =>
    dsimp only [exec] at h
    split at h
    · cases h
      exact .inl rfl
    next p empty r hset =>
    cases h
    obtain ⟨-, -, hu, -, hc, -, hr⟩ := Room.setConnected_eq hset
    exact .inr (hr ▸ .setConnected hu hc)
  | touch now =>
    cases h
    exact .inr (by rw [World.set, Room.touch_eq]; exact .touch)
  | transition dst now =>
    rcases settle_cases h with ⟨-, rfl⟩ | ⟨res, r, ht, -, rfl⟩
    · exact .inl rfl
    cases hx : s.room.transition dst now with
    | error err =>
      rw [hx] at ht
      cases ht
    | ok r' =>
      rw [hx] at ht
      obtain ⟨hv, hr⟩ := Room.transition_ok hx
      cases ht
      exact .inr (hr ▸ .transition hv)
  | participants =>
    dsimp only [exec] at h
    split at h
    · cases h
      exact .inl rfl
    · cases h
  | _ =>
    cases h
    exact .inl rfl

/-! ### what no command changes -/

section
variable {c : Cmd} {s m : World} {e : List Participant} {a : c.Ans}

theorem cfg_exec (h : exec c s e = some (a, m)) : m.room.cfg = s.room.cfg := by
  rcases room_exec h with hsame | heff
  · rw [hsame]
  · generalize m.room = r at heff
    cases heff <;> rfl

def Cmd.connects : Cmd → Option String
  | .join req _ => some req.userID
  | .setConnected u true _ _ _ => some u
  | _ => none

theorem connected_exec (h : exec c s e = some (a, m)) {u : String} (hu : c.connects ≠ some u) {q : Participant}
    (hq : m.room.participants.find u = some q) (hc : q.connected = true) :
    ∃ p, s.room.participants.find u = some p ∧ p.connected = true := by
  rcases room_exec h with hsame | heff
  · rw [hsame] at hq
    exact ⟨q, hq, hc⟩
  generalize m.room = r at heff hq
  cases heff with
  | join _ _ hid =>
    rcases Members.find_put_eq hq with rfl | ⟨-, hq⟩
    · have hself : u = q.userID := (Members.userID_find hq).symm
      exact absurd (congrArg some (hid.symm.trans hself.symm)) hu
    · exact ⟨q, hq, hc⟩
  | leave | remove => exact ⟨q, (Members.find_remove_eq hq).2, hc⟩
  | transferOwnership hms =>
    obtain ⟨p, hp, hpc⟩ := hms u q hq
    exact ⟨p, hp, hpc.symm.trans hc⟩
  | setConnected hid hcon =>
    rcases Members.find_put_eq hq with rfl | ⟨-, hq⟩
    · have hself : u = q.userID := (Members.userID_find hq).symm
      rw [hc] at hcon
      subst hcon
      exact absurd (congrArg some (hid.symm.trans hself.symm)) hu
    · exact ⟨q, hq, hc⟩
  | touch | transition _ => exact ⟨q, hq, hc⟩

/-- the command sets the last activity -/
def Cmd.stamps : Cmd → Bool
  | .join _ _ | .leave _ _ | .remove _ _ _ | .transferOwnership _ _ _ | .touch _ => true
  | .setConnected _ connected _ _ _ => connected
  | .transition dst _ => dst = .active
  | _ => false

theorem lastActivity_exec (h : exec c s e = some (a, m)) (hc : c.stamps = false) :
    m.room.lastActivity = s.room.lastActivity := by
  rcases room_exec h with hsame | heff
  · rw [hsame]
  generalize m.room = r at heff
  cases heff with
  | join | leave | remove | transferOwnership | touch => cases hc
  | setConnected _ _ => exact if_neg (Bool.eq_false_iff.mp hc)
  | transition _ =>
    have hno : ¬ _ = State.active := of_decide_eq_false hc
    exact if_neg fun h => hno h.1

end

abbrev Task (ρ : Type) := Code Cmd Cmd.Ans ρ

def access (c : Cmd) : Task c.Ans := cmd c

inductive Reply where
  | done
  | joined (res : JoinResult)
  | left (res : LeaveResult)
  | transferred (res : TransferResult)
  | roomNotFound
  | failed (e : Error)

/-! ## membership -/

def registered (next : Task Reply) : Task Reply :=
  (access .get).bind fun ok => if ok then next else .ret .roomNotFound

variable {P : Cmd → Prop}

theorem uses_registered {next : Task Reply} (hget : P .get) (h : next.Uses P) : (registered next).Uses P := by
  refine ⟨hget, fun ok => ?_⟩
  cases ok with
  | true => exact h
  | false => trivial

theorem wp_registered {next : Task Reply} {Q : Reply → World → Prop} {w : World}
    (hnext : w.registered = true → next.wp exec Q w) (hno : w.registered = false → Q .roomNotFound w) :
    (registered next).wp exec Q w := by
  intro e ok m he
  cases he
  show (if w.registered = true then next else .ret .roomNotFound).wp exec Q w
  split
  · next h => exact hnext h
  · next h => exact hno (Bool.eq_false_iff.mpr h)

def report (changed : Bool) (actorID : String) (src dst : State) (now : Int) (reply : Reply) : Task Reply :=
  (if changed then access (.publish (.changed actorID src dst now)) else .ret ()).bind fun _ =>
  (access .save).bind fun _ => .ret reply

theorem uses_report (hp : ∀ e, P (.publish e)) (hs : P .save) (changed : Bool) (actorID : String) (src dst : State)
    (now : Int) (reply : Reply) : (report changed actorID src dst now reply).Uses P := by
  refine uses_bind ?_ fun _ => ⟨hs, fun _ => trivial⟩
  cases changed with
  | true => exact ⟨hp _, fun _ => trivial⟩
  | false => trivial

def join (req : JoinRequest) (now : Int) : Task Reply :=
  registered <|
  (access (.join req now)).bind fun res =>
  match res with
  | .error e => .ret (.failed e)
  | .ok res =>
    (access (.publish
      { type := if res.reconnected then .roomRecovered else .userJoined
        actorID := req.userID
        role := res.participant.role
        time := now })).bind fun _ =>
    report res.stateChanged req.userID res.previousState res.newState now (.joined res)

variable {now : Int}

theorem uses_join {req : JoinRequest} (hget : P .get) (hjoin : P (.join req now)) (hp : ∀ e, P (.publish e))
    (hs : P .save) : (join req now).Uses P := by
  refine uses_registered hget ⟨hjoin, fun res => ?_⟩
  cases res with
  | error e => trivial
  | ok res => exact ⟨hp _, fun _ => uses_report hp hs _ _ _ _ _ _⟩

def leave (userID : String) (now : Int) : Task Reply :=
  registered <|
  (access (.leave userID now)).bind fun res =>
  match res with
  | .error e => .ret (.failed e)
  | .ok res =>
    (access (.publish
      { type := .userLeft, actorID := userID, role := res.participant.role, reason := "voluntary", time := now })).bind
        fun _ =>
    report res.stateChanged userID res.previousState res.newState now (.left res)

theorem uses_leave {userID : String} (hget : P .get) (hleave : P (.leave userID now)) (hp : ∀ e, P (.publish e))
    (hs : P .save) : (leave userID now).Uses P := by
  refine uses_registered hget ⟨hleave, fun res => ?_⟩
  cases res with
  | error e => trivial
  | ok res => exact ⟨hp _, fun _ => uses_report hp hs _ _ _ _ _ _⟩

def kick (actorID targetID : String) (now : Int) : Task Reply :=
  registered <|
  (access (.remove actorID targetID now)).bind fun res =>
  match res with
  | .error e => .ret (.failed e)
  | .ok res =>
    (access (.publish
      { type := .userLeft
        actorID := actorID
        targetID := targetID
        role := res.participant.role
        reason := "kicked"
        time := now })).bind fun _ =>
    report res.stateChanged actorID res.previousState res.newState now (.left res)

variable {actorID : String}

theorem uses_kick {targetID : String} (hget : P .get) (hremove : P (.remove actorID targetID now))
    (hp : ∀ e, P (.publish e)) (hs : P .save) : (kick actorID targetID now).Uses P := by
  refine uses_registered hget ⟨hremove, fun res => ?_⟩
  cases res with
  | error e => trivial
  | ok res => exact ⟨hp _, fun _ => uses_report hp hs _ _ _ _ _ _⟩

def transferOwnership (actorID newOwnerID : String) (now : Int) : Task Reply :=
  registered <|
  (access (.transferOwnership actorID newOwnerID now)).bind fun res =>
  match res with
  | .error e => .ret (.failed e)
  | .ok res =>
    (access (.publish { type := .ownerChanged, actorID := actorID, targetID := newOwnerID, time := now })).bind fun _ =>
    (access .save).bind fun _ => .ret (.transferred res)

theorem uses_transferOwnership {newOwnerID : String} (hget : P .get)
    (ht : P (.transferOwnership actorID newOwnerID now)) (hp : ∀ e, P (.publish e)) (hs : P .save) :
    (transferOwnership actorID newOwnerID now).Uses P := by
  refine uses_registered hget ⟨ht, fun res => ?_⟩
  cases res with
  | error e => trivial
  | ok res => exact ⟨hp _, fun _ => ⟨hs, fun _ => trivial⟩⟩

/-! ## connections -/

def settleWaiting (now : Int) : Task Unit :=
  (access .state).bind fun state =>
  if state = .active then
    (access .state).bind fun prev =>
    (access (.transition .waiting now)).bind fun res =>
    match res with
    | .ok _ => access (.publish (.changed "" prev .waiting now))
    | .error _ => .ret ()
  else .ret ()

def settleActive (now : Int) : Task Unit :=
  (access .state).bind fun state =>
  if state ≠ .active then
    (access .state).bind fun prev =>
    (access (.touch now)).bind fun changed =>
    if changed then
      (access (.publish { type := .roomRecovered, time := now })).bind fun _ =>
      access (.publish (.changed "" prev .active now))
    else .ret ()
  else .ret ()

theorem uses_settleWaiting (hst : P .state) (ht : P (.transition .waiting now)) (hp : ∀ e, P (.publish e)) :
    (settleWaiting now).Uses P := by
  refine ⟨hst, fun st => ?_⟩
  show Uses P (if st = .active then _ else _ : Task Unit)
  split
  · refine ⟨hst, fun prev => ⟨ht, fun res => ?_⟩⟩
    cases res with
    | ok _ => exact ⟨hp _, fun _ => trivial⟩
    | error _ => trivial
  · trivial

theorem uses_settleActive (hst : P .state) (ht : P (.touch now)) (hp : ∀ e, P (.publish e)) :
    (settleActive now).Uses P := by
  refine ⟨hst, fun st => ?_⟩
  show Uses P (if st ≠ .active then _ else _ : Task Unit)
  split
  · refine ⟨hst, fun prev => ⟨ht, fun changed => ?_⟩⟩
    cases changed with
    | true => exact ⟨hp _, fun _ => ⟨hp _, fun _ => trivial⟩⟩
    | false => trivial
  · trivial

def setConnected (userID : String) (connected : Bool) (connID sessionID : String) (now : Int) : Task Reply :=
  registered <|
  (access (.setConnected userID connected connID sessionID now)).bind fun res =>
  match res with
  | none => .ret (.failed .participantNotFound)
  | some (p, nowEmpty) =>
    (access (.publish { type := .membershipUpdated, actorID := userID, role := p.role, time := now })).bind fun _ =>
    (if nowEmpty then settleWaiting now else if connected then settleActive now else .ret ()).bind fun _ =>
    (access .save).bind fun _ => .ret .done

theorem uses_setConnected {userID connID sessionID : String} {connected : Bool} (hget : P .get)
    (hset : P (.setConnected userID connected connID sessionID now)) (hst : P .state)
    (hw : P (.transition .waiting now)) (ht : P (.touch now)) (hp : ∀ e, P (.publish e)) (hs : P .save) :
    (setConnected userID connected connID sessionID now).Uses P := by
  refine uses_registered hget ⟨hset, fun res => ?_⟩
  cases res with
  | none => trivial
  | some x =>
    obtain ⟨p, nowEmpty⟩ := x
    refine ⟨hp _, fun _ => ?_⟩
    show ((if nowEmpty then settleWaiting now else if connected then settleActive now else .ret ()).bind fun _ =>
      (access .save).bind fun _ => .ret Reply.done).Uses P
    refine uses_bind ?_ fun _ => ⟨hs, fun _ => trivial⟩
    cases nowEmpty with
    | true => exact uses_settleWaiting hst hw hp
    | false =>
      cases connected with
      | true => exact uses_settleActive hst ht hp
      | false => trivial

def closeRoom (actorID : String) (now : Int) : Task Reply :=
  registered <|
  (access (.authorize actorID .closeRoom)).bind fun res =>
  match res with
  | .error e => .ret (.failed e)
  | .ok _ =>
    (access .state).bind fun prev =>
    (access (.transition .closed now)).bind fun res =>
    match res with
    | .error e => .ret (.failed e)
    | .ok _ =>
      (access (.publish
        { type := .roomClosed, actorID := actorID, src := prev, dst := .closed, reason := "explicit",
          time := now })).bind fun _ =>
      (access .save).bind fun _ => .ret .done

theorem uses_closeRoom (hget : P .get) (ha : P (.authorize actorID .closeRoom)) (hst : P .state)
    (ht : P (.transition .closed now)) (hp : ∀ e, P (.publish e)) (hs : P .save) :
    (closeRoom actorID now).Uses P := by
  refine uses_registered hget ⟨ha, fun res => ?_⟩
  cases res with
  | error e => trivial
  | ok _ =>
    refine ⟨hst, fun prev => ⟨ht, fun res => ?_⟩⟩
    cases res with
    | error e => trivial
    | ok _ => exact ⟨hp _, fun _ => ⟨hs, fun _ => trivial⟩⟩

/-! ## the janitor -/

def isExpired (lastSeen timeout now : Int) : Bool := lastSeen ≠ 0 ∧ timeout < now - lastSeen

def Participant.due (p : Participant) (cfg : Config) (now : Int) : Bool :=
  !p.connected && isExpired p.lastSeen cfg.recoveryTimeout now

def evict (cfg : Config) (now : Int) (p : Participant) : Task Unit :=
  if p.due cfg now then
    (access (.leave p.userID now)).bind fun res =>
    match res with
    | .ok _ => access (.publish
        { type := .userLeft, actorID := p.userID, role := p.role, reason := "recovery_expired", time := now })
    | .error _ => .ret ()
  else .ret ()

theorem uses_evict {cfg : Config} (hl : ∀ u, P (.leave u now)) (hp : ∀ e, P (.publish e)) (p : Participant) :
    (evict cfg now p).Uses P := by
  unfold evict
  split
  · refine ⟨hl _, fun res => ?_⟩
    cases res with
    | ok _ => exact ⟨hp _, fun _ => trivial⟩
    | error _ => trivial
  · trivial

def move (dst : State) (now : Int) (next : Task Unit) : Task Unit :=
  (access (.transition dst now)).bind fun res =>
  match res with
  | .ok _ => next
  | .error _ => .ret ()

def moveChanged (src dst : State) (now : Int) : Task Unit :=
  move dst now <| (access (.publish (.changed "" src dst now))).bind fun _ => access .save

def moveExpiring (src : State) (now : Int) : Task Unit :=
  move .expiring now <|
  (access (.publish { type := .roomExpired, src := src, dst := .expiring, time := now })).bind fun _ =>
  (access (.publish (.changed "" src .expiring now))).bind fun _ => access .save

variable (recovery : Int)

/-- how long a closed room is kept: the default recovery timeout, within five milliseconds and one minute -/
def retention : Int :=
  if 60000000000 < recovery then 60000000000 else if recovery < 5000000 then 5000000 else recovery

/-- the switch of `cleanupRoom` -/
def cleanupState (cfg : Config) (now : Int) (state : State) (lastAct : Int) (connCount : Nat) : Task Unit :=
  match state with
  | .active =>
    if connCount = 0 ∨ cfg.idleTimeout < now - lastAct then
      moveChanged .active (if connCount = 0 then .waiting else .idle) now
    else .ret ()
  | .waiting => if cfg.expireTimeout < now - lastAct then moveExpiring .waiting now else .ret ()
  | .idle =>
    if connCount = 0 then moveChanged .idle .waiting now
    else if cfg.expireTimeout < now - lastAct then moveExpiring .idle now
    else .ret ()
  | .expiring =>
    if cfg.expireTimeout < now - lastAct then
      move .closed now <|
      (access (.publish
        { type := .roomClosed, src := .expiring, dst := .closed, reason := "idle_timeout", time := now })).bind fun _ =>
      access .save
    else .ret ()
  | .closed =>
    if retention recovery < now - lastAct then
      move .destroyed now <|
      (access (.publish { type := .roomDestroyed, src := .closed, dst := .destroyed, time := now })).bind fun _ =>
      (access .deregister).bind fun _ => access .delete
    else .ret ()
  | _ => .ret ()

def Cmd.reports : Cmd → Bool
  | .publish _ | .save => true
  | _ => false

abbrev purge (e : Event) : Task Unit :=
  (access (.publish e)).bind fun _ => (access .deregister).bind fun _ => access .delete

/-- the switch makes at most one transition; one to `destroyed` purges the room -/
theorem cleanupState_cases (cfg : Config) (now : Int) (state : State) (lastAct : Int) (n : Nat) :
    cleanupState recovery cfg now state lastAct n = .ret () ∨
      ∃ dst next, cleanupState recovery cfg now state lastAct n = move dst now next ∧
        (dst ≠ .destroyed ∧ next.Uses (·.reports = true) ∨ dst = .destroyed ∧ ∃ e, next = purge e) ∧
        (dst = .waiting → n = 0) ∧
        (dst = .expiring ∨ dst = .closed → cfg.expireTimeout < now - lastAct ∧
          ∃ next', cleanupState recovery cfg now state lastAct 1 = move dst now next') := by
  have hsaved : ∀ e, ((access (.publish e)).bind fun _ => access .save).Uses (·.reports = true) :=
    fun e => ⟨rfl, fun _ => ⟨rfl, fun _ => trivial⟩⟩
  have hexpired : ∀ e e', ((access (.publish e)).bind fun _ => (access (.publish e')).bind fun _ =>
      access .save).Uses (·.reports = true) :=
    fun e e' => ⟨rfl, fun _ => hsaved e'⟩
  unfold cleanupState
  cases state with
  | active =>
    dsimp only
    split
    · refine .inr ⟨_, _, rfl, .inl ⟨?_, hsaved _⟩, fun h => ?_, fun h => ?_⟩
      · split <;> exact nofun
      · split at h
        · next hn => exact hn
        · cases h
      · split at h <;> rcases h with h | h <;> cases h
    · exact .inl rfl
  | waiting =>
    dsimp only
    split
    · next ht => exact .inr ⟨_, _, rfl, .inl ⟨nofun, hexpired _ _⟩, nofun, fun _ => ⟨ht, _, rfl⟩⟩
    · exact .inl rfl
  | idle =>
    dsimp only
    split
    · next hn =>
      refine .inr ⟨_, _, rfl, .inl ⟨nofun, hsaved _⟩, fun _ => hn, fun h => ?_⟩
      rcases h with h | h <;> cases h
    · split
      · next ht =>
        exact .inr ⟨_, _, rfl, .inl ⟨nofun, hexpired _ _⟩, nofun, fun _ => ⟨ht, _, if_neg Nat.one_ne_zero⟩⟩
      · exact .inl rfl
  | expiring =>
    dsimp only
    split
    · next ht => exact .inr ⟨_, _, rfl, .inl ⟨nofun, hsaved _⟩, nofun, fun _ => ⟨ht, _, rfl⟩⟩
    · exact .inl rfl
  | closed =>
    dsimp only
    split
    · refine .inr ⟨_, _, rfl, .inr ⟨rfl, _, rfl⟩, nofun, fun h => ?_⟩
      rcases h with h | h <;> cases h
    · exact .inl rfl
  | _ => exact .inl rfl

/-- the part of `cleanupRoom` after its loop -/
def cleanupRest (cfg : Config) (now : Int) : Task Unit :=
  (access .state).bind fun state =>
  (access .lastActivity).bind fun lastAct =>
  (access .connectedCount).bind fun connCount =>
  cleanupState recovery cfg now state lastAct connCount

def cleanupRoom (now : Int) : Task Unit :=
  (access .config).bind fun cfg =>
  (access .participants).bind fun ps =>
  (each (evict cfg now) ps).bind fun _ =>
  cleanupRest recovery cfg now

/-- `runCleanup` for this room, which the registry has to list -/
def sweep (now : Int) : Task Reply :=
  registered <| (cleanupRoom recovery now).bind fun _ => .ret .done

/-! ## the calls -/

/-- the calls on a room; the times are those at which they read the clock -/
inductive Call where
  | join (req : JoinRequest) (now : Int)
  | leave (userID : String) (now : Int)
  | kick (actorID targetID : String) (now : Int)
  | transferOwnership (actorID newOwnerID : String) (now : Int)
  | setConnected (userID : String) (connected : Bool) (connID sessionID : String) (now : Int)
  | closeRoom (actorID : String) (now : Int)
  | touch (now : Int)
  | sweep (now : Int)

def body : Call → Task Reply
  | .join req now => join req now
  | .leave userID now => leave userID now
  | .kick actorID targetID now => kick actorID targetID now
  | .transferOwnership actorID newOwnerID now => transferOwnership actorID newOwnerID now
  | .setConnected userID connected connID sessionID now => setConnected userID connected connID sessionID now
  | .closeRoom actorID now => closeRoom actorID now
  | .touch now => (access (.touch now)).bind fun _ => .ret .done
  | .sweep now => sweep recovery now

structure ManagerConfig where
  defaultMaxParticipants : Int := 100
  defaultIdleTimeout : Int := 300000000000
  defaultExpireTimeout : Int := 600000000000
  defaultRecoveryTimeout : Int := 60000000000

def ManagerConfig.room (m : ManagerConfig) (custom : Option Config) : Config :=
  custom.getD
    { maxParticipants := m.defaultMaxParticipants
      idleTimeout := m.defaultIdleTimeout
      expireTimeout := m.defaultExpireTimeout
      recoveryTimeout := m.defaultRecoveryTimeout }

/-- `Manager.CreateRoom` for an id that is not registered -/
def createRoom (m : ManagerConfig) (id name ownerID : String) (custom : Option Config) (metadata : Option Metadata)
    (now : Int) : Except Error World := do
  let r ← (new
    { id := id
      name := name
      ownerID := ownerID
      cfg := m.room custom
      policy := .default
      metadata := metadata
      now := now }).transition .waiting now
  return {
    room := r
    published := [{ type := .roomCreated, actorID := ownerID, role := .owner, time := now }]
    handed := [.save r.snapshot] }

/-! ## one after another -/

def serve (w : World) (l : Call × List (List Participant)) : Option World :=
  match l.1 with
  | .touch _ => none
  | c => ((body recovery c).run exec w l.2).map (·.2)

def plain (c : Call) (n : Nat) : Call × List (List Participant) := (c, List.replicate n [])

def sweeping (now : Int) (ps : List Participant) (n : Nat) : Call × List (List Participant) :=
  (.sweep now, [[], [], ps] ++ List.replicate n [])

/-! ## interleaved -/

abbrev calls : Prog Call World (Thread Call Cmd Cmd.Ans Reply) (List Participant) :=
  prog exec (body recovery)

abbrev RoomSys := Sys World (Thread Call Cmd Cmd.Ans Reply)

def aliceWorld (recoveryTimeout : Int) : World :=
  let r : Room :=
    { new
        { id := "r1"
          name := "room"
          ownerID := "alice"
          cfg := ⟨10, 100, 200, recoveryTimeout, .visibilityPrivate⟩
          policy := .default
          now := 1 } with
      state := .waiting }
  { room := r
    published := [{ type := .roomCreated, actorID := "alice", role := .owner, time := 1 }]
    handed := [.save r.snapshot] }

theorem createRoom_alice (t : Int) :
    createRoom {} "r1" "room" "alice" (some ⟨10, 100, 200, t, .visibilityPrivate⟩) none 1 = .ok (aliceWorld t) := rfl

def alice : Participant := { userID := "alice", role := .owner, joinedAt := 1, lastSeen := 1, connected := false }

def steps (i n : Nat) : List (Act Call (List Participant)) := List.replicate n (.step i [])

def listing (i : Nat) (now : Int) (ps : List Participant) : List (Act Call (List Participant)) :=
  [.spawn i (.sweep now), .step i [], .step i [], .step i ps]

end Rooms
