import Mathlib.Data.List.AList
import Mathlib.Tactic.Common

/-!
# Rooms: the entity

`room.Room` with `lifecycle` and `permissions`.  Every exported method of the source runs under the lock of the room
from its first to its last line, so each is one function here.

Times are integers that count from the zero time; the references to documents, presence and execution are left out.
-/

namespace Rooms

open AList

/-! ## lifecycle -/

/-- `lifecycle.State`; `unknown` is any other value of the type -/
inductive State where
  | created
  | waiting
  | active
  | idle
  | expiring
  | closed
  | destroyed
  | unknown (n : Int)
deriving DecidableEq

def State.valid : State → Bool
  | .unknown _ => false
  | _ => true

def State.transitions : State → List State
  | .created => [.waiting, .active, .closed]
  | .waiting => [.active, .expiring, .closed]
  | .active => [.waiting, .idle, .closed]
  | .idle => [.active, .waiting, .expiring, .closed]
  | .expiring => [.active, .closed]
  | .closed => [.destroyed]
  | .destroyed => []
  | .unknown _ => []

def canTransition (src dst : State) : Bool := src = dst ∨ dst ∈ src.transitions

def validate (src dst : State) : Bool := src.valid && dst.valid && canTransition src dst

def State.ended (s : State) : Bool := s = .closed ∨ s = .destroyed

/-! ## permissions -/

/-- `permissions.Role`; `unknown` is any other value of the type -/
inductive Role where
  | observer
  | participant
  | moderator
  | owner
  | administrator
  | unknown (n : Nat)
deriving DecidableEq

def Role.rank : Role → Nat
  | .observer => 1
  | .participant => 2
  | .moderator => 3
  | .owner => 4
  | .administrator => 5
  | .unknown _ => 0

def Role.atLeast (r other : Role) : Bool := other.rank ≤ r.rank

def Role.valid (r : Role) : Bool := r.rank ≠ 0

inductive Action where
  | observe
  | join
  | leave
  | kick
  | transferOwnership
  | closeRoom
  | modifySettings
deriving DecidableEq

structure Policy where
  min : List (Action × Role)

def Policy.default : Policy :=
  ⟨[(.observe, .observer), (.join, .observer), (.leave, .observer), (.kick, .moderator), (.transferOwnership, .owner),
    (.closeRoom, .owner), (.modifySettings, .owner)]⟩

/-- an action that the policy does not name is for administrators -/
def Policy.requirement (p : Policy) (action : Action) : Role := (p.min.lookup action).getD .administrator

def Policy.allows (p : Policy) (role : Role) (action : Action) : Bool := role.atLeast (p.requirement action)

/-! ## participants -/

abbrev Metadata := List (String × String)

structure Participant where
  userID : String
  role : Role
  sessionID : String := ""
  connID : String := ""
  joinedAt : Int := 0
  lastSeen : Int := 0
  connected : Bool
  metadata : Option Metadata := none
deriving DecidableEq

structure Members where
  map : AList fun _ : String => Participant
  keyed : ∀ u p, map.lookup u = some p → p.userID = u

namespace Members

def find (m : Members) (u : String) : Option Participant := m.map.lookup u

def put (m : Members) (p : Participant) : Members where
  map := m.map.insert p.userID p
  keyed u q h := by
    by_cases hu : u = p.userID
    · subst hu
      rw [lookup_insert] at h
      cases h
      rfl
    · rw [lookup_insert_ne hu] at h
      exact m.keyed u q h

def remove (m : Members) (u : String) : Members where
  map := m.map.erase u
  keyed v q h := by
    by_cases hv : v = u
    · subst hv
      rw [lookup_erase] at h
      cases h
    · rw [lookup_erase_ne hv] at h
      exact m.keyed v q h

def one (p : Participant) : Members := put ⟨∅, fun u q h => by rw [lookup_empty] at h; cases h⟩ p

def list (m : Members) : List Participant := m.map.entries.map (·.2)

def connectedCount (m : Members) : Nat := m.list.countP (·.connected)

variable {m : Members} {p q : Participant} {u v : String}

theorem userID_find (h : m.find u = some p) : p.userID = u := m.keyed u p h

theorem find_put (m : Members) (p : Participant) (u : String) :
    (m.put p).find u = if u = p.userID then some p else m.find u := by
  unfold find put
  split
  · next h => rw [h, lookup_insert]
  · next h => rw [lookup_insert_ne h]

theorem find_remove (m : Members) (u v : String) : (m.remove u).find v = if v = u then none else m.find v := by
  unfold find remove
  split
  · next h => rw [h, lookup_erase]
  · next h => rw [lookup_erase_ne h]

theorem find_one (p : Participant) (u : String) : (one p).find u = if u = p.userID then some p else none := by
  unfold one
  rw [find_put]
  rfl

theorem find_put_eq (h : (m.put p).find u = some q) : q = p ∨ u ≠ p.userID ∧ m.find u = some q := by
  rw [find_put] at h
  split at h
  · exact .inl (Option.some.inj h).symm
  · next hu => exact .inr ⟨hu, h⟩

theorem find_remove_eq (h : (m.remove u).find v = some q) : v ≠ u ∧ m.find v = some q := by
  rw [find_remove] at h
  split at h
  · cases h
  · next hv => exact ⟨hv, h⟩

theorem mem_list : p ∈ m.list ↔ m.find p.userID = some p := by
  unfold list find
  rw [List.mem_map]
  constructor
  · rintro ⟨⟨u, q⟩, hmem, rfl⟩
    have hq : m.map.lookup u = some q := mem_lookup_iff.mpr hmem
    rw [m.keyed u q hq]
    exact hq
  · intro h
    exact ⟨⟨p.userID, p⟩, mem_lookup_iff.mp h, rfl⟩

theorem mem_of_find (h : m.find u = some p) : p ∈ m.list := by
  rw [mem_list, userID_find h]
  exact h

theorem connectedCount_eq_zero : m.connectedCount = 0 ↔ ∀ u p, m.find u = some p → p.connected = false := by
  unfold connectedCount
  rw [List.countP_eq_zero]
  constructor
  · intro h u p hp
    exact Bool.eq_false_iff.mpr (h p (mem_of_find hp))
  · intro h p hp
    exact Bool.eq_false_iff.mp (h p.userID p (mem_list.mp hp))

end Members

/-! ## the room -/

inductive Visibility where
  | visibilityPrivate
  | visibilityPublic
deriving DecidableEq

structure Config where
  maxParticipants : Int
  idleTimeout : Int
  expireTimeout : Int
  recoveryTimeout : Int
  visibility : Visibility := .visibilityPrivate

structure Room where
  id : String
  name : String
  ownerID : String
  state : State
  createdAt : Int
  lastActivity : Int
  participants : Members
  policy : Policy
  cfg : Config
  metadata : Option Metadata

structure Params where
  id : String
  name : String
  ownerID : String
  cfg : Config
  policy : Policy
  metadata : Option Metadata := none
  ownerSessionID : String := ""
  ownerConnID : String := ""
  now : Int

def new (p : Params) : Room where
  id := p.id
  name := p.name
  ownerID := p.ownerID
  state := .created
  createdAt := p.now
  lastActivity := p.now
  participants := .one
    { userID := p.ownerID
      role := .owner
      sessionID := p.ownerSessionID
      connID := p.ownerConnID
      joinedAt := p.now
      lastSeen := p.now
      connected := p.ownerConnID ≠ "" }
  policy := p.policy
  cfg := p.cfg
  metadata := p.metadata

inductive Error where
  | roomClosed
  | roomFull
  | duplicateParticipant
  | participantNotFound
  | notAParticipant
  | cannotRemoveOwner
  | invalidRole
  | alreadyOwner
  | permissionDenied (action : Action) (requirement role : Role)
  | invalidTransition (src dst : State)
deriving DecidableEq

structure JoinRequest where
  userID : String
  role : Role
  sessionID : String := ""
  connID : String := ""
  metadata : Option Metadata := none

structure JoinResult where
  participant : Participant
  reconnected : Bool := false
  stateChanged : Bool
  previousState : State
  newState : State

structure LeaveResult where
  participant : Participant
  ownerLeft : Bool
  empty : Bool
  stateChanged : Bool
  previousState : State
  newState : State

structure TransferResult where
  previousOwner : String
  newOwner : String

namespace Room

variable (r : Room)

def authorize (actorID : String) (action : Action) : Except Error Unit :=
  match r.participants.find actorID with
  | none => .error .notAParticipant
  | some actor =>
    if r.policy.allows actor.role action then .ok ()
    else .error (.permissionDenied action (r.policy.requirement action) actor.role)

def transition (dst : State) (now : Int) : Except Error Room :=
  if validate r.state dst = false then .error (.invalidTransition r.state dst)
  else if r.state = dst then .ok r
  else .ok { r with state := dst, lastActivity := if dst = .active then now else r.lastActivity }

/-- `driveActiveLocked`, with whether the state has changed -/
def driveActive (now : Int) : Bool × Room :=
  if r.state = .active then (false, r)
  else if canTransition r.state .active then (true, { r with state := .active, lastActivity := now })
  else (false, r)

def admitted (p : Participant) (reconnected : Bool) (now : Int) : JoinResult × Room :=
  let (changed, r') := ({ r with participants := r.participants.put p, lastActivity := now } : Room).driveActive now
  (⟨p, reconnected, changed, r.state, r'.state⟩, r')

/-- `Join`; who is a member keeps the role that it has -/
def join (req : JoinRequest) (now : Int) : Except Error (JoinResult × Room) :=
  if req.role.valid = false then .error .invalidRole
  else if r.state.ended then .error .roomClosed
  else
    match r.participants.find req.userID with
    | some existing =>
      if existing.connected then .error .duplicateParticipant
      else
        .ok (r.admitted
          { existing with
            connected := true
            sessionID := req.sessionID
            connID := req.connID
            lastSeen := now
            metadata := req.metadata.or existing.metadata } true now)
    | none =>
      if 0 < r.cfg.maxParticipants ∧ r.cfg.maxParticipants ≤ r.participants.list.length then .error .roomFull
      else
        .ok (r.admitted
          { userID := req.userID
            role := req.role
            sessionID := req.sessionID
            connID := req.connID
            joinedAt := now
            lastSeen := now
            connected := true
            metadata := req.metadata } false now)

/-- `removeLocked`, which is `Leave` -/
def leave (userID : String) (now : Int) : Except Error (LeaveResult × Room) :=
  match r.participants.find userID with
  | none => .error .participantNotFound
  | some p =>
    let left : Room := { r with participants := r.participants.remove userID, lastActivity := now }
    let empty := left.participants.list.isEmpty
    if left.participants.connectedCount = 0 ∧ (r.state = .active ∨ r.state = .idle) then
      match left.transition .waiting now with
      | .ok r' => .ok (⟨p, userID = r.ownerID, empty, true, r.state, r'.state⟩, r')
      | .error _ => .ok (⟨p, userID = r.ownerID, empty, false, r.state, left.state⟩, left)
    else .ok (⟨p, userID = r.ownerID, empty, false, r.state, left.state⟩, left)

def remove (actorID targetID : String) (now : Int) : Except Error (LeaveResult × Room) := do
  r.authorize actorID .kick
  if targetID = r.ownerID ∧ ¬ (r.participants.find actorID).any (·.role.atLeast .administrator) = true then
    .error .cannotRemoveOwner
  else r.leave targetID now

def transferOwnership (r : Room) (actorID newOwnerID : String) (now : Int) : Except Error (TransferResult × Room) := do
  r.authorize actorID .transferOwnership
  if newOwnerID = r.ownerID then .error .alreadyOwner
  else
    match r.participants.find newOwnerID with
    | none => .error .participantNotFound
    | some newOwner =>
      let demoted := match r.participants.find r.ownerID with
        | some cur => r.participants.put { cur with role := .participant }
        | none => r.participants
      .ok (⟨r.ownerID, newOwnerID⟩,
        { r with
          participants := demoted.put { newOwner with role := .owner }
          ownerID := newOwnerID
          lastActivity := now })

/-- `SetConnected`: the participant, whether nobody is connected now, and the room; `none` when there is no such
participant -/
def setConnected (userID : String) (connected : Bool) (connID sessionID : String) (now : Int) :
    Option (Participant × Bool × Room) :=
  match r.participants.find userID with
  | none => none
  | some p =>
    let p' : Participant :=
      if connected then { p with connected := true, lastSeen := now, connID := connID, sessionID := sessionID }
      else { p with connected := false, lastSeen := now, connID := "" }
    let r' : Room :=
      { r with
        participants := r.participants.put p'
        lastActivity := if connected then now else r.lastActivity }
    some (p', !connected && r'.participants.connectedCount = 0, r')

def touch (now : Int) : Bool × Room := ({ r with lastActivity := now } : Room).driveActive now

/-! ## what the methods do -/

variable {r r' : Room} {now : Int}

/-- the state of a room that is driven to `active` -/
def driven (s : State) : State := if canTransition s .active then .active else s

theorem driveActive_eq (r : Room) (now : Int) : r.driveActive now = (decide (driven r.state ≠ r.state),
      { r with
        state := driven r.state
        lastActivity := if driven r.state = r.state then r.lastActivity else now }) := by
  unfold driveActive driven
  by_cases ha : r.state = .active
  · have hcan : canTransition r.state .active = true := by rw [ha]; rfl
    simp [← ha]
  · rw [if_neg ha]
    by_cases hcan : canTransition r.state .active = true
    · rw [if_pos hcan, if_pos hcan]
      simp [Ne.symm ha]
    · rw [if_neg hcan, if_neg hcan]
      simp

def entered (r : Room) (p : Participant) (now : Int) : Room :=
  { r with participants := r.participants.put p, lastActivity := now, state := driven r.state }

theorem admitted_eq (r : Room) (p : Participant) (b : Bool) (now : Int) : r.admitted p b now =
      (⟨p, b, decide (driven r.state ≠ r.state), r.state, driven r.state⟩, r.entered p now) := by
  unfold admitted
  rw [driveActive_eq]
  simp [entered]

/-- `Join`: a member comes back, or a user who is none enters -/
theorem join_ok {req : JoinRequest} {res : JoinResult} (h : r.join req now = .ok (res, r')) :
    r.state.ended = false ∧ ∃ p, p.connected = true ∧ p.userID = req.userID ∧ r' = r.entered p now ∧
      res.stateChanged = decide (driven r.state ≠ r.state) ∧ res.previousState = r.state ∧
      res.newState = driven r.state ∧
      ((∃ old, r.participants.find req.userID = some old ∧ p.role = old.role) ∨
        r.participants.find req.userID = none ∧ p.role = req.role) := by
  unfold join at h
  split at h
  · cases h
  split at h
  · cases h
  next hended =>
  refine ⟨Bool.eq_false_iff.mpr hended, ?_⟩
  split at h
  · next old hold =>
    split at h
    · cases h
    have hu : old.userID = req.userID := Members.userID_find hold
    rw [admitted_eq] at h
    cases h
    refine ⟨_, ?_, ?_, rfl, rfl, rfl, rfl, .inl ⟨old, hold, ?_⟩⟩
    · rfl
    · exact hu
    · rfl
  · next hnone =>
    split at h
    · cases h
    rw [admitted_eq] at h
    cases h
    exact ⟨_, rfl, rfl, rfl, rfl, rfl, rfl, .inr ⟨hnone, rfl⟩⟩

/-- the state of a room in which `m` are left -/
def emptied (s : State) (m : Members) : State :=
  if m.connectedCount = 0 ∧ (s = .active ∨ s = .idle) then .waiting else s

def without (r : Room) (userID : String) (now : Int) : Room :=
  { r with
    participants := r.participants.remove userID
    lastActivity := now
    state := emptied r.state (r.participants.remove userID) }

/-- `Leave`: the member goes, and the room waits when nobody is connected -/
theorem leave_ok {userID : String} {res : LeaveResult} (h : r.leave userID now = .ok (res, r')) :
    r.participants.find userID = some res.participant ∧ r' = r.without userID now ∧
      res.stateChanged = decide (r'.state ≠ r.state) ∧ res.previousState = r.state ∧ res.newState = r'.state := by
  unfold leave at h
  split at h
  · cases h
  next p hp =>
  dsimp only at h
  split at h
  · next hwait =>
    have hemptied : emptied r.state (r.participants.remove userID) = .waiting := if_pos hwait
    have hmove : ({ r with participants := r.participants.remove userID, lastActivity := now } : Room).transition
        .waiting now = .ok (r.without userID now) := by
      unfold transition without
      rw [hemptied]
      rcases hwait.2 with hs | hs <;> simp [hs, validate, canTransition, State.valid, State.transitions]
    have hne : State.waiting ≠ r.state := by rcases hwait.2 with hs | hs <;> simp [hs]
    rw [hmove] at h
    cases h
    refine ⟨hp, rfl, ?_, rfl, rfl⟩
    simp [without, hemptied, hne]
  · next hstay =>
    have hemptied : emptied r.state (r.participants.remove userID) = r.state := if_neg hstay
    cases h
    refine ⟨hp, ?_, ?_, rfl, rfl⟩
    · simp [without, hemptied]
    · simp

/-- `Remove` is `Leave` of the target, by someone who may; the owner is removed by an administrator only -/
theorem remove_ok {actorID targetID : String} {res : LeaveResult}
    (h : r.remove actorID targetID now = .ok (res, r')) :
    r.leave targetID now = .ok (res, r') ∧ (targetID = r.ownerID →
      (r.participants.find actorID).any (·.role.atLeast .administrator) = true) := by
  unfold remove at h
  cases ha : r.authorize actorID .kick with
  | error e =>
    rw [ha] at h
    cases h
  | ok _ =>
    rw [ha] at h
    split at h
    · cases h
    next hno =>
    refine ⟨h, fun ht => ?_⟩
    by_contra hadmin
    exact hno ⟨ht, hadmin⟩

/-- `TransferOwnership`: the new owner is a member, and the old one, if it is a member, becomes a participant -/
theorem transferOwnership_ok {actorID newOwnerID : String} {res : TransferResult}
    (h : r.transferOwnership actorID newOwnerID now = .ok (res, r')) :
    newOwnerID ≠ r.ownerID ∧ r'.ownerID = newOwnerID ∧ r'.state = r.state ∧
      (∃ p, r'.participants.find newOwnerID = some p ∧ p.role = .owner) ∧
      (∀ p, r'.participants.find r.ownerID = some p → p.role = .participant) ∧
      ∀ u, u ≠ newOwnerID → u ≠ r.ownerID → r'.participants.find u = r.participants.find u := by
  unfold transferOwnership at h
  cases ha : r.authorize actorID .transferOwnership with
  | error e =>
    rw [ha] at h
    cases h
  | ok _ =>
    rw [ha] at h
    split at h
    · cases h
    next hne =>
    split at h
    · cases h
    next new hnew =>
    have hid : new.userID = newOwnerID := Members.userID_find hnew
    cases h
    refine ⟨hne, rfl, rfl, ⟨{ new with role := .owner }, ?_, ?_⟩, fun p hp => ?_, fun u hu ho => ?_⟩
    · rw [Members.find_put, if_pos hid.symm]
    · rfl
    · rw [Members.find_put, if_neg fun e => hne (hid.symm.trans e.symm)] at hp
      split at hp
      · next cur hcur =>
        rw [Members.find_put, if_pos (Members.userID_find hcur).symm] at hp
        cases hp
        rfl
      · next hnone =>
        rw [hnone] at hp
        cases hp
    · rw [Members.find_put, if_neg fun e => hu (e.trans hid)]
      split
      · next cur hcur =>
        have hcid : cur.userID = r.ownerID := Members.userID_find hcur
        rw [Members.find_put, if_neg fun e => ho (e.trans hcid)]
      · rfl

/-- `TransferOwnership` connects nobody -/
theorem transferOwnership_frame {actorID newOwnerID : String} {res : TransferResult}
    (h : r.transferOwnership actorID newOwnerID now = .ok (res, r')) :
    ∃ ms, r' = { r with participants := ms, ownerID := newOwnerID, lastActivity := now } ∧
      ∀ u q, ms.find u = some q → ∃ p, r.participants.find u = some p ∧ q.connected = p.connected := by
  unfold transferOwnership at h
  cases ha : r.authorize actorID .transferOwnership with
  | error e =>
    rw [ha] at h
    cases h
  | ok _ =>
    rw [ha] at h
    split at h
    · cases h
    split at h
    · cases h
    next new hnew =>
    have hid : new.userID = newOwnerID := Members.userID_find hnew
    cases h
    refine ⟨_, rfl, fun u q hq => ?_⟩
    rcases Members.find_put_eq hq with rfl | ⟨hu, hq⟩
    · have hu : u = new.userID := (Members.userID_find hq).symm
      exact ⟨new, by rw [hu, hid]; exact hnew, rfl⟩
    split at hq
    · next cur hcur =>
      have hcid : cur.userID = r.ownerID := Members.userID_find hcur
      rcases Members.find_put_eq hq with rfl | ⟨hu, hq⟩
      · have hu : u = cur.userID := (Members.userID_find hq).symm
        exact ⟨cur, by rw [hu, hcid]; exact hcur, rfl⟩
      · exact ⟨q, hq, rfl⟩
    · exact ⟨q, hq, rfl⟩

theorem transition_ok {dst : State} (h : r.transition dst now = .ok r') : validate r.state dst = true ∧
      r' = { r with state := dst, lastActivity := if dst = .active ∧ r.state ≠ dst then now else r.lastActivity } := by
  unfold transition at h
  split at h
  · cases h
  next hv =>
  refine ⟨(Bool.not_eq_false _).mp hv, ?_⟩
  split at h
  · next hs =>
    cases h
    simp [← hs]
  · next hs =>
    cases h
    simp [hs]

theorem setConnected_eq {userID connID sessionID : String} {connected empty : Bool} {p' : Participant}
    (h : r.setConnected userID connected connID sessionID now = some (p', empty, r')) :
    ∃ p, r.participants.find userID = some p ∧ p'.userID = userID ∧ p'.role = p.role ∧ p'.connected = connected ∧
      empty = (!connected && r'.participants.connectedCount = 0) ∧
      r' = { r with
        participants := r.participants.put p'
        lastActivity := if connected then now else r.lastActivity } := by
  unfold setConnected at h
  split at h
  · cases h
  next p hp =>
  have hu : p.userID = userID := Members.userID_find hp
  cases connected with
  | false | true =>
    cases h
    exact ⟨p, hp, hu, rfl, rfl, rfl, rfl⟩

theorem touch_eq (r : Room) (now : Int) :
    r.touch now = (decide (driven r.state ≠ r.state), { r with state := driven r.state, lastActivity := now }) := by
  unfold touch
  rw [driveActive_eq]
  simp

end Room

end Rooms
