import Cpip.Lib.Run
import Cpip.Rooms.Room

/-!
# Rooms: who owns a room

The owner of a room is written down twice: as `ownerID`, and as the role of a participant.

* `OwnerKept`  nobody enters as an owner, and the owner does not go before the room has ended;
* `ownership`  **the two agree, and an open room with participants has an owner**, while the owner is kept;
* `authority`  **who may remove, pass on and close, when nobody enters with a role from owner on**.

`Join` takes any role that is asked for and `Leave` takes any member, the owner too, see `ownership_lost`.
-/

namespace Rooms

open Lts Members

inductive Op where
  | join (req : JoinRequest) (now : Int)
  | leave (userID : String) (now : Int)
  | remove (actorID targetID : String) (now : Int)
  | transferOwnership (actorID newOwnerID : String) (now : Int)
  | setConnected (userID : String) (connected : Bool) (connID sessionID : String) (now : Int)
  | touch (now : Int)
  | transition (dst : State) (now : Int)

variable (r : Room)

def settled {α : Type} : Except Error (α × Room) → Room
  | .ok (_, r') => r'
  | .error _ => r

def Room.apply : Op → Room
  | .join req now => settled r (r.join req now)
  | .leave userID now => settled r (r.leave userID now)
  | .remove actorID targetID now => settled r (r.remove actorID targetID now)
  | .transferOwnership actorID newOwnerID now => settled r (r.transferOwnership actorID newOwnerID now)
  | .setConnected userID connected connID sessionID now =>
    ((r.setConnected userID connected connID sessionID now).map fun x => x.2.2).getD r
  | .touch now => (r.touch now).2
  | .transition dst now => (r.transition dst now).toOption.getD r

def step (op : Op) : Option Room := some (r.apply op)

/-- the two records of the owner agree, and an open room with members has its owner among them -/
structure Owned (r : Room) : Prop where
  role : ∀ p ∈ r.participants.list, p.role = .owner ↔ p.userID = r.ownerID
  present : r.participants.list ≠ [] → r.state ≠ .closed → r.state ≠ .destroyed →
    (r.participants.find r.ownerID).isSome

/-- nobody becomes a second owner by joining, and the owner does not go as long as the room is open -/
def OwnerKept : Op → Prop
  | .join req _ => req.role = .owner → (r.participants.find req.userID).isSome
  | .leave userID _ => userID = r.ownerID → r.state.ended
  | .remove actorID targetID _ => targetID = r.ownerID →
      r.state.ended ∨ (r.participants.find actorID).any (·.role.atLeast .administrator) = false
  | _ => True

instance (r : Room) : ∀ op, Decidable (OwnerKept r op)
  | .join req _ => inferInstanceAs (Decidable (req.role = .owner → (r.participants.find req.userID).isSome))
  | .leave userID _ => inferInstanceAs (Decidable (userID = r.ownerID → r.state.ended))
  | .remove actorID targetID _ => inferInstanceAs (Decidable (targetID = r.ownerID →
      r.state.ended ∨ (r.participants.find actorID).any (·.role.atLeast .administrator) = false))
  | .transferOwnership .. | .setConnected .. | .touch _ | .transition .. => inferInstanceAs (Decidable True)

/-! ## one operation -/

/-- what the operations keep: a room loses its owner only when it has ended -/
structure Kept (r : Room) : Prop where
  role : ∀ u p, r.participants.find u = some p → (p.role = .owner ↔ u = r.ownerID)
  present : r.state.ended = false → (r.participants.find r.ownerID).isSome

theorem owned_of_kept {r : Room} (h : Kept r) : Owned r := by
  constructor
  · intro p hp
    exact h.role p.userID p (mem_list.mp hp)
  intro _ hc hd
  apply h.present
  simp [State.ended, hc, hd]

theorem kept_new (p : Params) : Kept (new p) := by
  have hfind : ∀ u, (new p).participants.find u = if u = p.ownerID then some _ else none := find_one _
  constructor
  · intro u q hq
    rw [hfind] at hq
    split at hq
    · next hu =>
      cases hq
      exact ⟨fun _ => hu, fun _ => rfl⟩
    · cases hq
  · intro _
    show ((new p).participants.find p.ownerID).isSome
    rw [hfind, if_pos rfl]
    rfl

theorem ended_driven (s : State) : (Room.driven s).ended = s.ended := by
  cases s <;> rfl

theorem ended_validate {s t : State} (hv : validate s t = true) (h : s.ended = true) : t.ended = true := by
  cases s with
  | closed | destroyed => cases t <;> first | rfl | cases hv
  | _ => cases h

section
variable {r r' : Room} {now : Int}

theorem kept_put {p : Participant} (hk : Kept r) (hid : r'.ownerID = r.ownerID) (hs : r'.state.ended = r.state.ended)
    (hp : r'.participants = r.participants.put p) (hrole : p.role = .owner ↔ p.userID = r.ownerID) : Kept r' := by
  constructor
  · intro u q hq
    rw [hp] at hq
    rw [hid]
    rw [find_put] at hq
    split at hq
    · next hu =>
      cases hq
      rw [hu]
      exact hrole
    · exact hk.role u q hq
  · intro hend
    rw [hid, hp, find_put]
    split
    · rfl
    · exact hk.present (hs ▸ hend)

theorem kept_join {req : JoinRequest} {res : JoinResult} (hk : Kept r)
    (hreq : req.role = .owner → (r.participants.find req.userID).isSome) (h : r.join req now = .ok (res, r')) :
    Kept r' := by
  obtain ⟨hend, p, -, hu, rfl, -, -, -, hrole⟩ := Room.join_ok h
  refine kept_put (p := p) hk rfl (ended_driven r.state) rfl ?_
  rw [hu]
  rcases hrole with ⟨old, hold, hrole⟩ | ⟨hnone, hrole⟩
  · rw [hrole]
    exact hk.role req.userID old hold
  -- the owner is a member of an open room, so a new member is somebody else
  have hother : req.userID ≠ r.ownerID := by
    intro e
    have hown := hk.present hend
    rw [← e, hnone] at hown
    cases hown
  have hnot : p.role ≠ .owner := by
    rw [hrole]
    intro e
    have hmem := hreq e
    rw [hnone] at hmem
    cases hmem
  exact ⟨fun e => absurd e hnot, fun e => absurd e hother⟩

theorem ended_emptied {s : State} {m : Members} (h : s.ended = true) : Room.emptied s m = s := by
  unfold Room.emptied
  rw [if_neg]
  rintro ⟨-, rfl | rfl⟩ <;> cases h

theorem kept_leave {userID : String} {res : LeaveResult} (hk : Kept r)
    (hstay : userID = r.ownerID → r.state.ended) (h : r.leave userID now = .ok (res, r')) : Kept r' := by
  obtain ⟨-, rfl, -⟩ := Room.leave_ok h
  constructor
  · intro u q hq
    exact hk.role u q (find_remove_eq hq).2
  intro hend
  have hopen : r.state.ended = false := by
    by_contra hs
    have hs' : r.state.ended = true := (Bool.not_eq_false _).mp hs
    have hsame : (r.without userID now).state = r.state := ended_emptied hs'
    rw [hsame, hs'] at hend
    cases hend
  have hne : r.ownerID ≠ userID := by
    intro e
    rw [hstay e.symm] at hopen
    cases hopen
  show ((r.participants.remove userID).find r.ownerID).isSome
  rw [find_remove, if_neg hne]
  exact hk.present hopen

theorem kept_transferOwnership {actorID newOwnerID : String} {res : TransferResult} (hk : Kept r)
    (h : r.transferOwnership actorID newOwnerID now = .ok (res, r')) : Kept r' := by
  obtain ⟨hne, hid, -, ⟨new, hnew, hrole⟩, hold, hrest⟩ := Room.transferOwnership_ok h
  constructor
  · intro u q hq
    rw [hid]
    by_cases hu : u = newOwnerID
    · subst hu
      rw [hnew] at hq
      cases hq
      exact ⟨fun _ => rfl, fun _ => hrole⟩
    · have hnot : q.role ≠ .owner := by
        by_cases ho : u = r.ownerID
        · subst ho
          rw [hold q hq]
          decide
        · rw [hrest u hu ho] at hq
          exact fun e => ho ((hk.role u q hq).mp e)
      exact ⟨fun e => absurd e hnot, fun e => absurd e hu⟩
  · intro _
    rw [hid, hnew]
    rfl

theorem kept_setConnected {userID connID sessionID : String} {connected empty : Bool} {p' : Participant} (hk : Kept r)
    (h : r.setConnected userID connected connID sessionID now = some (p', empty, r')) : Kept r' := by
  obtain ⟨p, hp, hu, hrole, -, -, rfl⟩ := Room.setConnected_eq h
  refine kept_put (p := p') hk rfl rfl rfl ?_
  rw [hrole, hu]
  exact hk.role userID p hp

theorem kept_state (hk : Kept r) (hid : r'.ownerID = r.ownerID) (hp : r'.participants = r.participants)
    (hs : r.state.ended = true → r'.state.ended = true) : Kept r' := by
  constructor
  · rw [hid, hp]
    exact hk.role
  intro hend
  rw [hid, hp]
  apply hk.present
  by_contra hno
  rw [hs ((Bool.not_eq_false _).mp hno)] at hend
  cases hend

end

theorem kept_settled {α : Type} {r : Room} {x : Except Error (α × Room)} (hk : Kept r)
    (h : ∀ a r', x = .ok (a, r') → Kept r') : Kept (settled r x) := by
  cases x with
  | error e => exact hk
  | ok y => exact h y.1 y.2 rfl

theorem kept_step (op : Op) (r' : Room) (hk : Kept r) (hc : OwnerKept r op) (h : step r op = some r') :
    Kept r' := by
  cases h
  cases op with
  | join req now => exact kept_settled hk fun res r' h => kept_join hk hc h
  | leave userID now => exact kept_settled hk fun res r' h => kept_leave hk hc h
  | remove actorID targetID now =>
    refine kept_settled hk fun res r' h => ?_
    obtain ⟨hl, hadmin⟩ := Room.remove_ok h
    refine kept_leave hk (fun ht => ?_) hl
    rcases hc ht with hend | hno
    · exact hend
    · rw [hadmin ht] at hno
      cases hno
  | transferOwnership actorID newOwnerID now =>
    exact kept_settled hk fun res r' h => kept_transferOwnership hk h
  | setConnected userID connected connID sessionID now =>
    show Kept (((r.setConnected userID connected connID sessionID now).map fun x => x.2.2).getD r)
    cases hx : r.setConnected userID connected connID sessionID now with
    | none => exact hk
    | some x =>
      obtain ⟨p, empty, r'⟩ := x
      exact kept_setConnected hk hx
  | touch now =>
    show Kept (r.touch now).2
    rw [Room.touch_eq]
    exact kept_state hk rfl rfl fun h => (ended_driven r.state).trans h
  | transition dst now =>
    show Kept ((r.transition dst now).toOption.getD r)
    cases hx : r.transition dst now with
    | error e => exact hk
    | ok r' =>
      obtain ⟨hv, rfl⟩ := Room.transition_ok hx
      exact kept_state hk rfl rfl fun h => ended_validate hv h

/-! ## sequences of operations -/

/-- **The owner of a room** is the participant whom `ownerID` names, and an open room with participants has one. -/
theorem ownership (p : Params) (ops : List Op) (r : Room) (hc : Along step OwnerKept (new p) ops)
    (hr : run step (new p) ops = some r) : Owned r :=
  owned_of_kept (run_inv kept_step (kept_new p) hc hr)

def aliceRoom : Params where
  id := "r1"
  name := "room"
  ownerID := "alice"
  cfg := ⟨10, 100, 200, 50, .visibilityPrivate⟩
  policy := .default
  now := 1

def handedOver : List Op :=
  [.join { userID := "bob", role := .participant, connID := "c2" } 2, .join { userID := "alice", role := .owner } 3,
    .transferOwnership "alice" "bob" 4, .leave "alice" 5, .transition .closed 6, .leave "bob" 7]

theorem ownership_handedOver : Along step OwnerKept (new aliceRoom) handedOver ∧
      ∀ r, run step (new aliceRoom) handedOver = some r → Owned r := by
  have hc : Along step OwnerKept (new aliceRoom) handedOver := by decide +kernel
  exact ⟨hc, fun r hr => ownership aliceRoom handedOver r hc hr⟩

/-- a second user joins as an owner; the owner leaves, is kicked, or comes back with another role -/
theorem ownership_lost : (∃ r ∈ run step (new aliceRoom) [.join { userID := "bob", role := .owner } 2],
      ∃ p ∈ r.participants.list, p.role = .owner ∧ p.userID ≠ r.ownerID) ∧
    (∃ r ∈ run step (new aliceRoom) [.join { userID := "bob", role := .participant } 2, .leave "alice" 3],
      r.participants.list ≠ [] ∧ r.state = .active ∧ r.participants.find r.ownerID = none) ∧
    (∃ r ∈ run step (new aliceRoom) [.join { userID := "eve", role := .administrator } 2, .remove "eve" "alice" 3],
      r.participants.list ≠ [] ∧ r.state = .active ∧ r.participants.find r.ownerID = none) ∧
    ∃ r ∈ run step (new aliceRoom) [.leave "alice" 2, .join { userID := "alice", role := .participant } 3],
      ∃ p ∈ r.participants.list, p.role ≠ .owner ∧ p.userID = r.ownerID := by
  decide +kernel

/-! ## who may do what -/

/-- the user to whom the operation passes the room -/
def Room.heirs : Op → List String
  | .transferOwnership actorID newOwnerID now =>
    if (r.transferOwnership actorID newOwnerID now).toOption.isSome then [newOwnerID] else []
  | _ => []

def heirs : Room → List Op → List String
  | _, [] => []
  | r, op :: ops => r.heirs op ++ heirs (r.apply op) ops

/-- a user who is no member does not ask for a role from owner on -/
def Humble : Op → Prop
  | .join req _ => (r.participants.find req.userID).isSome ∨ req.role.rank < Role.owner.rank
  | _ => True

instance (r : Room) : ∀ op, Decidable (Humble r op)
  | .join _ _ => inferInstanceAs (Decidable (_ ∨ _))
  | .leave .. | .remove .. | .transferOwnership .. | .setConnected .. | .touch _ | .transition .. => .isTrue trivial

/-- with the default policy, only `ownerID` ranks as an owner, and that is one of `E` -/
structure Ranked (E : String → Prop) (r : Room) : Prop where
  policy : r.policy = .default
  heir : E r.ownerID
  role : ∀ u p, r.participants.find u = some p → Role.owner.rank ≤ p.role.rank → u = r.ownerID

section
variable {E : String → Prop} {r r' : Room} {now : Int}

section
variable (h : Ranked E r)
include h

theorem ranked_put {p : Participant} (hpol : r'.policy = r.policy) (hid : r'.ownerID = r.ownerID)
    (hp : r'.participants = r.participants.put p) (hrole : Role.owner.rank ≤ p.role.rank → p.userID = r.ownerID) :
    Ranked E r' := by
  refine ⟨hpol.trans h.policy, hid ▸ h.heir, fun u q hq hrank => ?_⟩
  rw [hp, find_put] at hq
  rw [hid]
  split at hq
  · next hu =>
    cases hq
    exact hu.trans (hrole hrank)
  · exact h.role u q hq hrank

theorem ranked_leave {userID : String} {res : LeaveResult}
    (hl : r.leave userID now = .ok (res, r')) : Ranked E r' := by
  obtain ⟨-, rfl, -⟩ := Room.leave_ok hl
  exact ⟨h.policy, h.heir, fun u q hq => h.role u q (find_remove_eq hq).2⟩

theorem ranked_transferOwnership {actorID newOwnerID : String} {res : TransferResult}
    (ht : r.transferOwnership actorID newOwnerID now = .ok (res, r')) : Ranked (fun u => E u ∨ u = newOwnerID) r' := by
  obtain ⟨-, hid, -, -, hold, hrest⟩ := Room.transferOwnership_ok ht
  obtain ⟨ms, hr', -⟩ := Room.transferOwnership_frame ht
  refine ⟨hr' ▸ h.policy, .inr hid, fun u q hq hrank => ?_⟩
  rw [hid]
  by_contra hu
  by_cases ho : u = r.ownerID
  · rw [hold q (ho ▸ hq)] at hrank
    exact absurd hrank (by decide)
  · rw [hrest u hu ho] at hq
    exact ho (h.role u q hq hrank)

theorem ranked_settled {α : Type} {x : Except Error (α × Room)}
    (hx : ∀ a r', x = .ok (a, r') → Ranked E r') : Ranked E (settled r x) := by
  cases x with
  | error e => exact h
  | ok y => exact hx y.1 y.2 rfl

theorem ranked_apply {op : Op} (hc : Humble r op) : Ranked (fun u => E u ∨ u ∈ r.heirs op) (r.apply op) := by
  have hw : Ranked (fun u => E u ∨ u ∈ r.heirs op) r := ⟨h.policy, .inl h.heir, h.role⟩
  cases op with
  | join req now =>
    refine ranked_settled hw fun res r' hj => ?_
    obtain ⟨-, p, -, hu, rfl, -, -, -, hrole⟩ := Room.join_ok hj
    refine ranked_put (p := p) hw rfl rfl rfl fun hrank => ?_
    rw [hu]
    rcases hrole with ⟨old, hold, hrole⟩ | ⟨hnone, hrole⟩
    · exact h.role _ old hold (hrole ▸ hrank)
    rcases hc with hmem | hlt
    · rw [hnone] at hmem
      cases hmem
    · rw [hrole] at hrank
      omega
  | leave userID now => exact ranked_settled hw fun res r' hl => ranked_leave hw hl
  | remove actorID targetID now => exact ranked_settled hw fun res r' hl => ranked_leave hw (Room.remove_ok hl).1
  | transferOwnership actorID newOwnerID now =>
    refine ranked_settled hw fun res r' ht => ?_
    have hr := ranked_transferOwnership h ht
    have hheirs : r.heirs (.transferOwnership actorID newOwnerID now) = [newOwnerID] := by
      simp [Room.heirs, ht, Except.toOption]
    rw [hheirs]
    exact ⟨hr.policy, hr.heir.imp_right fun e => by simp [e], hr.role⟩
  | setConnected userID connected connID sessionID now =>
    show Ranked _ (((r.setConnected userID connected connID sessionID now).map fun x => x.2.2).getD r)
    cases hx : r.setConnected userID connected connID sessionID now with
    | none => exact hw
    | some x =>
      obtain ⟨q, empty, r'⟩ := x
      obtain ⟨p, hp, hu, hrole, -, -, rfl⟩ := Room.setConnected_eq hx
      refine ranked_put (p := q) hw rfl rfl rfl fun hrank => ?_
      rw [hu]
      exact h.role _ p hp (hrole ▸ hrank)
  | touch now =>
    show Ranked _ (r.touch now).2
    rw [Room.touch_eq]
    exact ⟨hw.policy, hw.heir, hw.role⟩
  | transition dst now =>
    show Ranked _ ((r.transition dst now).toOption.getD r)
    cases hx : r.transition dst now with
    | error e => exact hw
    | ok r' =>
      obtain ⟨-, rfl⟩ := Room.transition_ok hx
      exact ⟨hw.policy, hw.heir, hw.role⟩

theorem ranked_run {ops : List Op} (hc : Along step Humble r ops)
    (hr : run step r ops = some r') : Ranked (fun u => E u ∨ u ∈ heirs r ops) r' := by
  induction ops generalizing r E with
  | nil =>
    cases hr
    exact ⟨h.policy, .inl h.heir, h.role⟩
  | cons op ops ih =>
    obtain ⟨m, hm, hr⟩ := run_cons_eq hr
    cases hm
    have hrun := ih (ranked_apply h hc.1) (hc.2 _ rfl) hr
    refine ⟨hrun.policy, ?_, hrun.role⟩
    simpa [heirs, or_assoc] using hrun.heir

end

theorem authorize_ok {u : String} {action : Action} (h : r.authorize u action = .ok ()) :
    ∃ a, r.participants.find u = some a ∧ r.policy.allows a.role action = true := by
  unfold Room.authorize at h
  split at h
  · cases h
  next a ha =>
  split at h
  · next hall => exact ⟨a, ha, hall⟩
  · cases h

theorem remove_authorized {actorID targetID : String} {x : LeaveResult × Room}
    (h : r.remove actorID targetID now = .ok x) : r.authorize actorID .kick = .ok () := by
  unfold Room.remove at h
  cases ha : r.authorize actorID .kick with
  | error e =>
    rw [ha] at h
    cases h
  | ok _ => rfl

end

/-- **Nobody removes a member of a higher role, nor passes on or closes a room that is not theirs**, with the
default policy, when nobody enters as an owner. -/
theorem authority (p : Params) (hp : p.policy = .default) (ops : List Op) (r : Room)
    (hc : Along step Humble (new p) ops) (hr : run step (new p) ops = some r) :
    (∀ actorID targetID now x, r.remove actorID targetID now = .ok x →
      ∃ a t, r.participants.find actorID = some a ∧ r.participants.find targetID = some t ∧
        a.role.atLeast t.role = true) ∧
    ∀ u, u ≠ p.ownerID → u ∉ heirs (new p) ops →
      r.authorize u .transferOwnership ≠ .ok () ∧ r.authorize u .closeRoom ≠ .ok () := by
  have hnew : Ranked (· = p.ownerID) (new p) := by
    refine ⟨hp, rfl, fun u q hq _ => ?_⟩
    rw [show (new p).participants.find u = if u = p.ownerID then some _ else none from find_one _ u] at hq
    split at hq
    · assumption
    · cases hq
  obtain ⟨hpol, hheir, hrole⟩ := ranked_run hnew hc hr
  constructor
  · rintro actorID targetID now ⟨res, r'⟩ h
    obtain ⟨a, ha, hkick⟩ := authorize_ok (remove_authorized h)
    obtain ⟨hl, hadmin⟩ := Room.remove_ok h
    refine ⟨a, _, ha, (Room.leave_ok hl).1, decide_eq_true ?_⟩
    rw [hpol] at hkick
    have h3 : Role.moderator.rank ≤ a.role.rank := of_decide_eq_true hkick
    by_cases ho : targetID = r.ownerID
    · have had := hadmin ho
      rw [ha] at had
      have h5 : Role.administrator.rank ≤ a.role.rank := of_decide_eq_true had
      have hmax : ∀ x : Role, x.rank ≤ Role.administrator.rank := by
        intro x
        cases x <;> simp [Role.rank]
      exact Nat.le_trans (hmax _) h5
    · by_contra hlt
      refine ho (hrole targetID _ (Room.leave_ok hl).1 ?_)
      have : Role.moderator.rank + 1 = Role.owner.rank := rfl
      omega
  · intro u hu hh
    have hno : ∀ action, Policy.default.requirement action = .owner → r.authorize u action ≠ .ok () := by
      intro action hreq h
      obtain ⟨a, ha, hall⟩ := authorize_ok h
      rw [hpol, Policy.allows, hreq] at hall
      have := hrole u a ha (of_decide_eq_true hall)
      rw [← this] at hheir
      exact hheir.elim hu hh
    exact ⟨hno _ rfl, hno _ rfl⟩

def humbleRun : List Op :=
  [.join { userID := "bob", role := .moderator } 2, .join { userID := "carol", role := .participant } 3,
    .transferOwnership "alice" "bob" 4]

theorem authority_humbleRun :
    ∃ r ∈ run step (new aliceRoom) humbleRun, (r.remove "bob" "carol" 5).toOption.isSome = true ∧
      r.authorize "bob" .closeRoom = .ok () ∧ r.authorize "carol" .closeRoom ≠ .ok () := by
  have hend : ∃ r ∈ run step (new aliceRoom) humbleRun, (r.remove "bob" "carol" 5).toOption.isSome = true ∧
      r.authorize "bob" .closeRoom = .ok () := by decide +kernel
  obtain ⟨r, hr, hrem, hbob⟩ := hend
  have hauth := authority aliceRoom rfl humbleRun r (by decide +kernel) hr
  exact ⟨r, hr, hrem, hbob, (hauth.2 "carol" (by decide) (by decide +kernel)).2⟩

/-- **Whoever asks for it joins as an administrator or an owner**, is removed by a moderator, or closes the room. -/
theorem authority_taken : (∃ r ∈ run step (new aliceRoom)
        [.join { userID := "eve", role := .administrator } 2, .join { userID := "bob", role := .moderator } 3],
      (r.remove "bob" "eve" 4).toOption.isSome = true ∧
      ∃ a ∈ r.participants.find "bob", ∃ t ∈ r.participants.find "eve", a.role.atLeast t.role = false) ∧
    ∃ r ∈ run step (new aliceRoom) [.join { userID := "mallory", role := .owner } 2],
      r.authorize "mallory" .transferOwnership = .ok () ∧ r.authorize "mallory" .closeRoom = .ok () := by
  decide +kernel

end Rooms
