import Cpip.Cache.Presence

/-!
# Cache: the handlers of a room, and its resync

`Subscribe` enters the manager with the replicator whenever it counts one subscribed room.  The resync of a room
only removes from the view.

* `handlers_once`  **an accepted update reaches each handler of its room once**, see also `handlers_twice`;
* `resync_exact`  **the view is that of Redis after a resync exactly if it lacked no record before**.
-/

namespace Cache.Rooms

open Lts Function

/-- a node with the handlers of its rooms; `appliers` counts how often the manager is entered with the replicator -/
structure Hub where
  member : Member
  handlers : String → List Nat := fun _ => []
  subbed : List String := []
  appliers : Nat := 0
  listening : Bool := false

/-- a call of `Subscribe`, with what the client answers should the replicator have to subscribe, or an update -/
inductive Event where
  | subscribe (roomID : String) (h : Nat) (ok : Bool)
  | arrive (u : Update)

namespace Hub

variable (s : Hub)

def subscribe (roomID : String) (h : Nat) (ok : Bool) : Hub :=
  let subbed := s.subbed.insert roomID
  let firstEver : Bool := subbed.length = 1
  { s with
    handlers := update s.handlers roomID (s.handlers roomID ++ [h])
    subbed
    appliers := if firstEver then s.appliers + 1 else s.appliers
    listening := s.listening || firstEver && ok }

def accepts (u : Update) : Bool := s.listening ∧ u.nodeID ≠ s.member.nodeID ∧ s.member.versions u.id < u.version

/-- the calls of handlers that an update makes -/
def calls (u : Update) : List Nat :=
  if s.accepts u then (List.replicate s.appliers (s.handlers u.payload.roomID)).flatten else []

/-- a second applier finds the view as the first one left it -/
def step : Event → Option Hub
  | .subscribe roomID h ok => some (s.subscribe roomID h ok)
  | .arrive u => some (if s.listening then { s with member := s.member.apply u } else s)

end Hub

/-- no second handler comes to the only room -/
def Hub.Spread (s : Hub) : Event → Prop
  | .subscribe roomID _ _ => s.subbed ≠ [roomID]
  | .arrive _ => True

instance (s : Hub) : ∀ e, Decidable (s.Spread e) := by
  intro e
  unfold Hub.Spread
  split <;> infer_instance

/-- the handlers that were registered for a room, in order -/
def registered (events : List Event) (roomID : String) : List Nat :=
  events.filterMap fun
    | .subscribe r h _ => if r = roomID then some h else none
    | .arrive _ => none

variable {s t : Hub}

theorem handlers_step {e : Event} (h : s.step e = some t) (roomID : String) :
    t.handlers roomID = s.handlers roomID ++ registered [e] roomID := by
  cases e with
  | subscribe r h ok =>
    cases h
    by_cases hr : r = roomID
    · subst hr
      simp [registered, Hub.subscribe]
    · simp [registered, Hub.subscribe, hr, update_of_ne (Ne.symm hr)]
  | arrive u =>
    cases h
    split <;> simp [registered]

theorem handlers_run {events : List Event} (h : run Hub.step s events = some t) (roomID : String) :
    t.handlers roomID = s.handlers roomID ++ registered events roomID := by
  induction events generalizing s with
  | nil =>
    cases h
    exact (List.append_nil _).symm
  | cons e events ih =>
    obtain ⟨m, hm, h⟩ := run_cons_eq h
    rw [ih h, handlers_step hm, List.append_assoc]
    exact congrArg _ (List.filterMap_append (l := [e])).symm

/-- the manager is entered once, with the first room, and the replicator listens from then on only -/
structure Hub.Entered (s : Hub) : Prop where
  appliers : s.appliers = if s.subbed = [] then 0 else 1
  silent : s.subbed = [] → s.listening = false

theorem entered_step (s : Hub) (e : Event) (t : Hub) (h : s.Entered) (hC : s.Spread e) (hs : s.step e = some t) :
    t.Entered := by
  cases e with
  | subscribe roomID _ ok =>
    cases hs
    -- with the room there is one room only if there was none
    have hone : (s.subbed.insert roomID).length = 1 ↔ s.subbed = [] := by
      revert hC
      unfold Hub.Spread
      rcases s.subbed with _ | ⟨r, _ | ⟨r', rooms⟩⟩ <;> grind
    have hsome : s.subbed.insert roomID ≠ [] := List.ne_nil_of_mem List.mem_insert_self
    refine ⟨?_, fun h => absurd h hsome⟩
    simp only [Hub.subscribe, hone, h.appliers, hsome, decide_eq_true_eq]
    split <;> rfl
  | arrive u =>
    cases hs
    split <;> exact ⟨h.appliers, h.silent⟩

/-- **an accepted update calls the handlers that were registered for its room before it, each once, and no other** -/
theorem handlers_once (m : Member) (events : List Event) (h : run Hub.step { member := m } events = some s)
    (hC : Along Hub.step Hub.Spread { member := m } events) (u : Update) (hu : s.accepts u) :
    s.calls u = registered events u.payload.roomID := by
  have hentered : s.Entered := run_inv entered_step ⟨rfl, fun _ => rfl⟩ hC h
  have hroom : s.handlers u.payload.roomID = registered events u.payload.roomID := handlers_run h _
  have hsubbed : s.subbed ≠ [] := by
    intro hnone
    simp [Hub.accepts, hentered.silent hnone] at hu
  have hone : s.appliers = 1 := hentered.appliers.trans (if_neg hsubbed)
  rw [Hub.calls, if_pos hu, hone, hroom]
  exact List.append_nil _

/-- two rooms with two handlers in one of them -/
def spreadEvents : List Event :=
  [.subscribe "r" 1 true, .subscribe "q" 2 true, .subscribe "r" 3 true]

/-- what another node tells of a user of room "r" -/
def movedUpdate : Update := ⟨"r|u", { roomID := "r", userID := "u", version := 1 }, 1, "n2"⟩

theorem handlers_once_spreadEvents :
    ∃ s, run Hub.step { member := ⟨"n1", fun _ => none, fun _ => 0⟩ } spreadEvents = some s ∧
      s.calls movedUpdate = [1, 3] :=
  ⟨_, rfl, handlers_once _ spreadEvents rfl (by decide +kernel) movedUpdate (by decide +kernel)⟩

/-- a second handler of the only room makes the manager a second applier, and both handlers are called twice -/
theorem handlers_twice : ∃ s ∈ run Hub.step { member := ⟨"n1", fun _ => none, fun _ => 0⟩ }
      [.subscribe "r" 1 true, .subscribe "r" 2 true],
    s.accepts movedUpdate ∧ s.calls movedUpdate = [1, 2, 1, 2] :=
  ⟨_, rfl, by decide +kernel, by decide +kernel⟩

/-! ## the resync -/

/-- what `GetRoom` has read, the members it leaves and the view it leaves -/
structure Reading where
  out : List Presence := []
  members : List String
  view : Seat → Option Presence

variable (roomID : String) (record : String → Option Presence)

def Reading.visit (r : Reading) (user : String) : Reading :=
  match record user with
  | none => { r with members := r.members.erase user, view := removeFromView r.view (roomID, user) }
  | some p => { r with out := r.out ++ [p] }

/-- `GetRoom`; `record` is what Redis has of each user, an expired record is gone -/
def getRoom (members : List String) (view : Seat → Option Presence) : Reading :=
  members.foldl (Reading.visit roomID record) { members, view }

/-- the unexpired records of the members -/
def authoritative (members : List String) (user : String) : Option Presence :=
  if user ∈ members then record user else none

theorem view_getRoom (users : List String) (r : Reading) (user : String) :
    (users.foldl (Reading.visit roomID record) r).view (roomID, user) =
      if user ∈ users ∧ record user = none then none else r.view (roomID, user) := by
  induction users generalizing r with
  | nil => simp
  | cons v users ih =>
    rw [List.foldl_cons, ih]
    cases hv : record v <;> by_cases hu : user = v <;> simp [Reading.visit, removeFromView, hv, hu]

/-- **after a resync the view of a room is what Redis has exactly if it had every record of a member before, and no
user but members** -/
theorem resync_exact (members : List String) (view : Seat → Option Presence) :
    (∀ user, (getRoom roomID record members view).view (roomID, user) = authoritative record members user) ↔
      (∀ user ∈ members, ∀ p, record user = some p → view (roomID, user) = some p) ∧
        ∀ user ∉ members, view (roomID, user) = none := by
  simp only [getRoom, view_getRoom, authoritative]
  constructor
  · intro h
    refine ⟨fun user hm p hp => ?_, fun user hm => ?_⟩
    · simpa [hm, hp] using h user
    · simpa [hm] using h user
  · rintro ⟨hhas, hno⟩ user
    by_cases hm : user ∈ members
    · cases hp : record user with
      | none => simp [hm]
      | some p => simp [hm, hhas user hm p hp]
    · simp [hm, hno user hm]

/-- a member the view has missed is missed after the resync -/
theorem resync_misses : let record := fun _ : String => some ({ roomID := "r", userID := "u" } : Presence)
    (getRoom "r" record ["u"] fun _ => none).view ("r", "u") ≠ authoritative record ["u"] "u" := by
  decide +kernel

end Cache.Rooms
