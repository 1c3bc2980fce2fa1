import Cpip.Lib.Outline
import Cpip.Rooms.Manager

/-!
# Rooms: a waiting room is empty

A call that finds the room empty moves it to `waiting`, a call that connects somebody drives it to `active`; both
take several critical sections.

* `waiting_empty`  **a waiting room has nobody connected**, see also `waiting_connected`.
-/

namespace Rooms

open Pool Code Lts

/-! ## where the calls are -/

def Cmd.waits : Cmd → Bool
  | .transition dst _ => dst = .waiting
  | _ => false

/-- the command drives the room to `active` -/
def Cmd.touches : Cmd → Bool
  | .touch _ => true
  | _ => false

/-- the answers that a call gets as long as the state is `st` -/
def staying (st : State) : (c : Cmd) → Option c.Ans
  | .publish _ => some ()
  | .state => some st
  | _ => none

/-- the call has found the room empty, and moves it to `waiting` if it stays `active` -/
def settles (x : Task Reply) : Bool := x.leads (staying .active) Cmd.waits

/-- the call has connected somebody, and drives the room to `active` if it stays `waiting` -/
def rescues (x : Task Reply) : Bool := x.leads (staying .waiting) Cmd.touches

/-- nobody connects while another call is between finding the room empty and moving it to `waiting` -/
def Unraced (sys : RoomSys) : Act Call (List Participant) → Prop
  | .spawn _ _ => True
  | .step i _ => ∀ t c, sys.pool i = some t → t.next = some c → c.connects ≠ none →
      ∀ j u, j ≠ i → sys.pool j = some u → settles u.code = false

/-! ## the outlines -/

/-- whoever connects goes on to drive the room to `active` -/
def Rescued : Task Reply → Prop
  | .call (.setConnected _ true _ _ _) k => ∀ p, rescues (k (some (p, false))) = true
  | _ => True

structure Point (x : Task Reply) (s : World) : Prop where
  empty : settles x = true → s.room.participants.connectedCount = 0
  rescued : Rescued x

/-- the command is neither a transition to `waiting` nor a connection -/
def Cmd.calm : Cmd → Bool
  | .transition dst _ => dst ≠ .waiting
  | .setConnected _ _ _ _ _ => false
  | _ => true

theorem waits_of_calm {c : Cmd} (h : c.calm = true) : c.waits = false := by
  cases c with
  | transition dst now =>
    have hne : dst ≠ .waiting := of_decide_eq_true h
    exact decide_eq_false hne
  | _ => rfl

theorem rescued_of_calm {c : Cmd} {k : c.Ans → Task Reply} (h : c.calm = true) : Rescued (.call c k) := by
  cases c with
  | setConnected _ _ _ _ _ => cases h
  | _ => trivial

theorem point_of_uses {x : Task Reply} (h : x.Uses (·.calm = true)) (s : World) : Point x s := by
  have hno : settles x = false := leads_uses (uses_mono (fun _ => waits_of_calm) h)
  refine ⟨fun hx => ?_, ?_⟩
  · rw [hno] at hx
    cases hx
  cases x with
  | ret r => trivial
  | call c k => exact rescued_of_calm h.1

theorem point_bind {ρ : Type} {x : Task ρ} {f : ρ → Task Reply} (h : x.Uses (·.calm = true))
    (hf : ∀ r, settles (f r) = false ∧ Rescued (f r)) (s : World) : Point (x.bind f) s := by
  have hno : settles (x.bind f) = false :=
    leads_bind_uses (uses_mono (fun _ => waits_of_calm) h) fun r => (hf r).1
  refine ⟨fun hx => ?_, ?_⟩
  · rw [hno] at hx
    cases hx
  cases x with
  | ret r => exact (hf r).2
  | call c k => exact rescued_of_calm h.1

section
variable {ok : World → Cmd → Prop} {recovery now : Int}

theorem outlined_calm {x : Task Reply} (h : x.Uses (·.calm = true)) : x.Outlined exec ok Point :=
  outlined_uses (fun _ hy => point_of_uses hy) h

theorem outlined_transition {dst : State} {k : Except Error Unit → Task Reply}
    (hk : ∀ res, (k res).Uses (·.calm = true)) : (call (.transition dst now) k).Outlined exec ok Point :=
  outlined_call fun _ _ res m _ _ => ⟨fun _ => point_of_uses (hk res) m, outlined_calm (hk res)⟩

theorem point_same {x y : Task Reply} {s m : World} (h : Point x s) (hroom : m.room = s.room)
    (hset : settles y = true → settles x = true) (hres : Rescued y) : Point y m := by
  refine ⟨fun hy => ?_, hres⟩
  rw [hroom]
  exact h.empty (hset hy)

/-- the code of `SetConnected` from its last snapshot on -/
abbrev saved : Task Reply := (access .save).bind fun _ => .ret .done

theorem outlined_settleWaiting : ((settleWaiting now).bind fun _ => saved).Outlined exec ok Point := by
  refine outlined_call fun s e st m _ he => ?_
  cases he
  show (Point _ s → Point ((if s.room.state = .active then _ else _ : Task Unit).bind _) s) ∧
    Code.Outlined exec ok Point ((if s.room.state = .active then _ else _ : Task Unit).bind _)
  split
  · next hst =>
    refine ⟨fun h => point_same h rfl (fun _ => rfl) trivial, outlined_call fun s e prev m _ he => ?_⟩
    cases he
    refine ⟨fun h => point_same h rfl (fun _ => rfl) trivial, outlined_transition fun res => ?_⟩
    cases res with
    | ok _ => exact ⟨rfl, fun _ => ⟨rfl, fun _ => trivial⟩⟩
    | error _ => exact ⟨rfl, fun _ => trivial⟩
  · have huses : saved.Uses (·.calm = true) := ⟨rfl, fun _ => trivial⟩
    exact ⟨fun _ => point_of_uses huses s, outlined_calm huses⟩

theorem nowEmpty_exec {userID connID sessionID : String} {connected : Bool} {s m : World} {e : List Participant}
    {p : Participant}
    (h : exec (.setConnected userID connected connID sessionID now) s e = some (some (p, true), m)) :
    m.room.participants.connectedCount = 0 := by
  dsimp only [exec] at h
  split at h
  · cases h
  next q empty r hset =>
  cases h
  obtain ⟨-, -, -, -, -, hempty, -⟩ := Room.setConnected_eq hset
  exact of_decide_eq_true ((Bool.and_eq_true _ _).mp hempty.symm).2

theorem outlined_setConnected (userID : String) (connected : Bool) (connID sessionID : String) :
    (setConnected userID connected connID sessionID now).Outlined exec ok Point := by
  refine outlined_call fun s e found m _ _ => ?_
  cases found with
  | false => exact ⟨fun _ => point_of_uses (x := .ret .roomNotFound) trivial m, trivial⟩
  | true =>
    refine ⟨fun _ => ⟨nofun, ?_⟩, outlined_call fun s e res m _ he => ?_⟩
    · cases connected with
      | false => trivial
      | true => exact fun p => rfl
    cases res with
    | none => exact ⟨fun _ => point_of_uses (x := .ret (.failed .participantNotFound)) trivial m, trivial⟩
    | some x =>
      obtain ⟨p, nowEmpty⟩ := x
      cases nowEmpty with
      | true =>
        refine ⟨fun _ => ⟨fun _ => ?_, trivial⟩, outlined_call fun s e _ m _ he => ?_⟩
        · exact nowEmpty_exec he
        · cases he
          exact ⟨fun h => point_same h rfl (fun _ => rfl) trivial, outlined_settleWaiting⟩
      | false =>
        have huses : ((access (.publish
            { type := .membershipUpdated, actorID := userID, role := p.role, time := now })).bind fun _ =>
            (if connected then settleActive now else .ret ()).bind fun _ => saved).Uses (·.calm = true) := by
          refine ⟨rfl, fun _ => ?_⟩
          cases connected with
          | true =>
            have hactive : (settleActive now).Uses (·.calm = true) := uses_settleActive rfl rfl fun _ => rfl
            exact uses_bind (x := settleActive now) hactive fun _ => ⟨rfl, fun _ => trivial⟩
          | false => exact ⟨rfl, fun _ => trivial⟩
        exact ⟨fun _ => point_of_uses huses m, outlined_calm huses⟩

theorem calm_of_reports {c : Cmd} (h : c.reports = true) : c.calm = true := by
  cases c with
  | publish _ | save => rfl
  | _ => cases h

theorem outlined_cleanupRest (cfg : Config) :
    ((cleanupRest recovery cfg now).bind fun _ => .ret .done).Outlined exec ok Point := by
  refine outlined_call fun s e state m _ _ => ⟨fun _ => ⟨nofun, trivial⟩, ?_⟩
  refine outlined_call fun s e lastAct m _ _ => ⟨fun _ => ⟨nofun, trivial⟩, ?_⟩
  refine outlined_call fun s e n m _ he => ?_
  cases he
  show (Point _ s → Point ((cleanupState recovery cfg now state lastAct _).bind _) s) ∧
    ((cleanupState recovery cfg now state lastAct _).bind _).Outlined exec ok Point
  rcases cleanupState_cases recovery cfg now state lastAct s.room.participants.connectedCount with
    h | ⟨dst, next, h, hnext, hzero, -⟩
  · rw [h]
    exact ⟨fun _ => point_of_uses (x := .ret .done) trivial s, trivial⟩
  have huses : next.Uses (·.calm = true) := by
    rcases hnext with ⟨-, huses⟩ | ⟨-, ev, rfl⟩
    · exact uses_mono (fun _ => calm_of_reports) huses
    · exact ⟨rfl, fun _ => ⟨rfl, fun _ => ⟨rfl, fun _ => trivial⟩⟩⟩
  rw [h]
  refine ⟨fun _ => ⟨fun hset => hzero ?_, trivial⟩, outlined_transition fun res => ?_⟩
  · exact of_decide_eq_true ((Bool.or_false _).symm.trans hset)
  cases res with
  | ok _ => exact uses_bind huses fun _ => trivial
  | error _ => trivial

theorem outlined_janitor : (sweep recovery now).Outlined exec ok Point := by
  refine outlined_call fun s e found m _ _ => ?_
  cases found with
  | false => exact ⟨fun _ => point_of_uses (x := .ret .roomNotFound) trivial m, trivial⟩
  | true =>
    refine ⟨fun _ => ⟨nofun, trivial⟩, outlined_call fun s e cfg m _ _ => ?_⟩
    refine ⟨fun _ => ⟨nofun, trivial⟩, outlined_call fun s e ps m _ _ => ?_⟩
    show (Point _ s → Point (((each (evict cfg now) ps).bind fun _ => cleanupRest _ cfg now).bind _) m) ∧
      (((each (evict cfg now) ps).bind fun _ => cleanupRest _ cfg now).bind _).Outlined exec ok Point
    rw [bind_assoc]
    have hloop : (each (evict cfg now) ps).Uses (·.calm = true) :=
      uses_each fun p _ => uses_evict (fun _ => rfl) (fun _ => rfl) p
    have hrest : settles ((cleanupRest recovery cfg now).bind fun _ => .ret .done) = false ∧
        Rescued ((cleanupRest recovery cfg now).bind fun _ => .ret .done) := ⟨rfl, trivial⟩
    exact ⟨fun _ => point_bind hloop (fun _ => hrest) m,
      outlined_bind (fun y hy => point_bind hy fun _ => hrest) hloop fun _ => outlined_cleanupRest cfg⟩

theorem outlined_body_point (w : Call) : (body recovery w).Outlined exec ok Point := by
  cases w with
  | setConnected userID connected connID sessionID now => exact outlined_setConnected userID connected connID sessionID
  | sweep now => exact outlined_janitor
  | join req now => exact outlined_calm (uses_join rfl rfl (fun _ => rfl) rfl)
  | leave userID now => exact outlined_calm (uses_leave rfl rfl (fun _ => rfl) rfl)
  | kick actorID targetID now => exact outlined_calm (uses_kick rfl rfl (fun _ => rfl) rfl)
  | transferOwnership actorID newOwnerID now =>
    exact outlined_calm (uses_transferOwnership rfl rfl (fun _ => rfl) rfl)
  | closeRoom actorID now => exact outlined_calm (uses_closeRoom rfl rfl rfl rfl (fun _ => rfl) rfl)
  | touch now => exact outlined_calm ⟨rfl, fun _ => trivial⟩

theorem point_body (w : Call) (s : World) : Point (body recovery w) s := by
  cases w <;> exact ⟨nofun, trivial⟩

end

/-! ## rooms that wait with somebody connected -/

def Bad (s : World) : Prop := s.room.state = .waiting ∧ s.room.participants.connectedCount ≠ 0

theorem driven_ne_waiting (s : State) : Room.driven s ≠ .waiting := by
  intro h
  cases s <;> cases h

section
variable {c : Cmd} {s m : World} {e : List Participant} {a : c.Ans}

theorem empty_exec (h : exec c s e = some (a, m)) (hc : c.connects = none)
    (h0 : s.room.participants.connectedCount = 0) : m.room.participants.connectedCount = 0 := by
  rw [Members.connectedCount_eq_zero] at h0 ⊢
  intro u q hq
  by_contra hcon
  obtain ⟨p, hp, hpc⟩ := connected_exec h (hc ▸ (Option.some_ne_none u).symm) hq ((Bool.not_eq_false _).mp hcon)
  rw [h0 u p hp] at hpc
  cases hpc

/-- a command that connects nobody, and lets the room wait only when it is empty, does not make a room bad -/
theorem bad_back (h : exec c s e = some (a, m)) (hc : c.connects = none)
    (hwait : c.waits = true → s.room.participants.connectedCount = 0) (hbad : Bad m) : Bad s := by
  have hcount : s.room.participants.connectedCount ≠ 0 := fun h0 => hbad.2 (empty_exec h hc h0)
  refine ⟨?_, hcount⟩
  rcases room_exec h with hsame | heff
  · rw [← hsame]
    exact hbad.1
  unfold Bad at hbad
  generalize m.room = r at heff hbad
  cases heff with
  | join => cases hc
  | leave | remove =>
    obtain ⟨hstate, hleft⟩ := hbad
    have hkept : Room.emptied s.room.state (s.room.participants.remove _) = s.room.state :=
      if_neg fun hempty => hleft hempty.1
    exact hkept.symm.trans hstate
  | transferOwnership _ | setConnected _ _ => exact hbad.1
  | touch => exact absurd hbad.1 (driven_ne_waiting _)
  | transition _ => exact absurd (hwait (decide_eq_true hbad.1)) hcount

/-- **after a step that leaves a room bad, the call goes on to drive it to `active`** -/
theorem bad_step {k : c.Ans → Task Reply} (h : exec c s e = some (a, m)) (hp : Point (.call c k) s) (hbad : Bad m) :
    rescues (k a) = true ∨ Bad s ∧ rescues (.call c k) = false := by
  cases c with
  | setConnected userID connected connID sessionID now =>
    cases connected with
    | false => exact .inr ⟨bad_back h rfl nofun hbad, rfl⟩
    | true =>
      dsimp only [exec] at h
      split at h
      · cases h
        exact .inr ⟨hbad, rfl⟩
      next p empty r hset =>
      obtain ⟨-, -, -, -, -, hempty, -⟩ := Room.setConnected_eq hset
      cases h
      rw [hempty]
      exact .inl (hp.rescued p)
  | join req now =>
    rcases room_exec h with hsame | heff
    · exact .inr ⟨by unfold Bad; rw [← hsame]; exact hbad, rfl⟩
    unfold Bad at hbad
    generalize m.room = r at heff hbad
    cases heff
    exact absurd hbad.1 (driven_ne_waiting _)
  | touch now =>
    cases h
    have hstate : (s.room.touch now).2.state = .waiting := hbad.1
    rw [Room.touch_eq] at hstate
    exact absurd hstate (driven_ne_waiting _)
  | publish ev =>
    cases h
    cases hk : rescues (k ()) with
    | true => exact .inl rfl
    | false => exact .inr ⟨hbad, hk⟩
  | state =>
    cases h
    have hst : s.room.state = .waiting := hbad.1
    rw [hst]
    cases hk : rescues (k .waiting) with
    | true => exact .inl rfl
    | false => exact .inr ⟨hbad, hk⟩
  | transition dst now =>
    exact .inr ⟨bad_back h rfl (fun hw => hp.empty (leads_call hw)) hbad, rfl⟩
  | _ =>
    exact .inr ⟨bad_back h rfl nofun hbad, rfl⟩

end

/-! ## interleavings -/

/-- every call is at a point of its outline, and a room that waits with somebody connected has a call that rescues it -/
structure WaitingInv (sys : RoomSys) : Prop where
  points : Code.OutlineSys exec (fun _ => True) (fun _ _ => True) (fun _ => Point) (fun _ _ => True) sys
  saved : Bad sys.shared → ∃ i t, sys.pool i = some t ∧ rescues t.code = true

theorem waitingInv_next (recovery : Int) (sys : RoomSys) (l : Act Call (List Participant)) (sys' : RoomSys)
    (hi : WaitingInv sys) (hc : Unraced sys l) (hn : (calls recovery).next sys l = some sys') : WaitingInv sys' := by
  constructor
  · refine outline_next (D := Unraced) (fun _ _ _ _ _ _ _ _ => trivial) (fun _ _ _ _ _ _ _ _ => trivial)
      (fun w s _ => ⟨outlined_body_point w, point_body w s⟩) ?_ (fun _ _ => ⟨trivial, trivial⟩)
      (fun _ _ _ _ _ _ _ _ _ _ _ _ _ _ _ => ⟨trivial, trivial⟩) sys l sys' hi.points hc hn
    intro sys i t c k a m h j u hj hu _ hI
    obtain ⟨e, hD, he⟩ := h.guard
    refine ⟨fun hset => empty_exec he ?_ (hI.empty hset), hI.rescued⟩
    by_contra hcon
    rw [hD t c h.pool (next_of_code h.code) hcon j u hj hu] at hset
    cases hset
  · intro hbad
    cases l with
    | spawn i w =>
      obtain ⟨hfree, rfl⟩ := next_spawn hn
      obtain ⟨j, u, hu, hres⟩ := hi.saved hbad
      have hj : j ≠ i := by
        rintro rfl
        rw [hfree] at hu
        cases hu
      exact ⟨j, u, (Function.update_of_ne hj ..).trans hu, hres⟩
    | step i e =>
      obtain ⟨t, t', m, hp, hs, rfl⟩ := next_step hn
      obtain ⟨c, k, a, hcode, he, rfl⟩ := prog_step hs
      have hpoint : Point (.call c k) sys.shared := hcode ▸ (hi.points.each i t hp).2
      rcases bad_step he hpoint hbad with hres | ⟨hbad, hno⟩
      · exact ⟨i, _, Function.update_self .., hres⟩
      obtain ⟨j, u, hu, hres⟩ := hi.saved hbad
      have hj : j ≠ i := by
        rintro rfl
        rw [hp] at hu
        cases hu
        rw [hcode, hno] at hres
        cases hres
      exact ⟨j, u, (Function.update_of_ne hj ..).trans hu, hres⟩

theorem createRoom_ok {cfg : ManagerConfig} {id name ownerID : String} {custom : Option Config}
    {metadata : Option Metadata} {now : Int} {w : World}
    (h : createRoom cfg id name ownerID custom metadata now = .ok w) :
    w.room.state = .waiting ∧ w.room.participants.connectedCount = 0 := by
  cases h
  exact ⟨rfl, rfl⟩

/-- **A waiting room has nobody connected**, if none connects while another call is about to move it to `waiting`. -/
theorem waiting_empty (cfg : ManagerConfig) (id name ownerID : String) (custom : Option Config)
    (metadata : Option Metadata) (now : Int) (w : World) (acts : List (Act Call (List Participant))) (sys : RoomSys)
    (hw : createRoom cfg id name ownerID custom metadata now = .ok w)
    (hC : Along (calls cfg.defaultRecoveryTimeout).next Unraced (idle w) acts)
    (hr : run (calls cfg.defaultRecoveryTimeout).next (idle w) acts = some sys)
    (hidle : ∀ i t, sys.pool i = some t → t.next = none) (hwait : sys.shared.room.state = .waiting) :
    sys.shared.room.participants.connectedCount = 0 := by
  have h0 : WaitingInv (idle w) :=
    ⟨inv_idle trivial, fun hbad => absurd (createRoom_ok hw).2 hbad.2⟩
  have hinv := run_inv (waitingInv_next cfg.defaultRecoveryTimeout) h0 hC hr
  by_contra hcon
  -- the call that would rescue the room has returned
  obtain ⟨i, t, hp, hres⟩ := hinv.saved ⟨hwait, hcon⟩
  obtain ⟨r, hcode⟩ := ret_of_next (hidle i t hp)
  rw [hcode] at hres
  cases hres

/-! ## runs -/

def partingRun : List (Act Call (List Participant)) :=
  [.spawn 0 (.join { userID := "alice", role := .owner } 2)] ++ steps 0 5 ++
    [.spawn 1 (.setConnected "alice" false "" "" 3)] ++ steps 1 3 ++ [.spawn 2 (.leave "alice" 4)] ++ steps 2 5 ++
      steps 1 2

theorem waiting_empty_partingRun : ∃ sys ∈ run (calls 60000000000).next (idle (aliceWorld 50)) partingRun,
      sys.shared.room.state = .waiting ∧ sys.shared.room.participants.connectedCount = 0 := by
  have hC : Along (calls 60000000000).next Unraced (idle (aliceWorld 50)) partingRun :=
    along_pairs (n := 3) (D := fun _ i t j u => j ≠ i → ∀ c ∈ t.next, c.connects ≠ none → settles u.code = false)
      (fun _ _ _ => trivial) (fun _ _ _ h t c hp hc hcon j u hj hu => h t j u hp hu hj c hc hcon) (by decide +kernel)
      (by decide +kernel)
  have hend : ∃ sys ∈ run (calls 60000000000).next (idle (aliceWorld 50)) partingRun,
      sys.shared.room.state = .waiting ∧ ∀ i < 3, ∀ t ∈ sys.pool i, t.next = none := by decide +kernel
  obtain ⟨sys, hr, hwait, hidle⟩ := hend
  have hbelow : ∀ i t, sys.pool i = some t → i < 3 := fun i t => run_below (by decide +kernel) hr
  refine ⟨sys, hr, hwait, ?_⟩
  exact waiting_empty {} "r1" "room" "alice" (some ⟨10, 100, 200, 50, .visibilityPrivate⟩) none 1 (aliceWorld 50)
    partingRun sys (createRoom_alice 50) hC hr (fun i t ht => hidle i (hbelow i t ht) t ht) hwait

/-- `bob` joins before the room is moved to `waiting`: the room waits and `bob` is connected -/
theorem waiting_connected : ∃ sys ∈ run (calls 60000000000).next (idle (aliceWorld 50))
        ([.spawn 0 (.join { userID := "alice", role := .owner } 2)] ++ steps 0 5 ++
          [.spawn 1 (.setConnected "alice" false "" "" 3)] ++ steps 1 5 ++
          [.spawn 2 (.join { userID := "bob", role := .participant } 4)] ++ steps 2 4 ++ steps 1 3),
      (∀ i < 3, ∀ t ∈ sys.pool i, t.next = none) ∧ sys.shared.room.state = .waiting ∧
        (sys.shared.room.participants.find "bob").any (·.connected) = true := by
  decide +kernel

end Rooms
