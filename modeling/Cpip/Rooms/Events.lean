import Cpip.Rooms.Manager

/-!
# Rooms: what the events tell

Calls that are made one after another, and the `StateChanged` events they publish.

* `Reported`  the call makes no change that is told otherwise;
* `events_tell`  **the events tell every change of the state and nothing else** after reported calls.

`CloseRoom` and the sweep publish `RoomClosed` and `RoomDestroyed` instead, see `change_untold`.
-/

namespace Rooms

open Lts Code List

def Event.change (e : Event) : Option (State × State) := if e.type = .stateChanged then some (e.src, e.dst) else none

def changes (es : List Event) : List (State × State) := es.filterMap Event.change

/-- the events tell every change of the state and nothing else -/
def Told (w : World) : Prop := changes w.published = w.made

/-- `CloseRoom` is allowed to the actor and closes the room -/
def Room.closes (r : Room) (actorID : String) : Bool :=
  (r.authorize actorID .closeRoom).isOk && validate r.state .closed && r.state ≠ .closed

/-- the last activity as a sweep finds it after its evictions -/
def Room.lastUse (r : Room) (now : Int) : Int :=
  if r.participants.list.any (·.due r.cfg now) then now else r.lastActivity

/-- the call closes no room, and the sweep neither closes one nor evicts from one with nobody connected -/
def Reported (recovery : Int) (w : World) (l : Call × List (List Participant)) : Prop :=
  match l.1 with
  | .closeRoom actorID _ => w.room.closes actorID = false
  | .sweep now =>
    (w.room.state = .active ∨ w.room.state = .idle → w.room.participants.list.any (·.due w.room.cfg now) = true →
      w.room.participants.connectedCount ≠ 0) ∧
    (w.room.state = .expiring → now - w.room.lastUse now ≤ w.room.cfg.expireTimeout) ∧
    (w.room.state = .closed → now - w.room.lastUse now ≤ retention recovery)
  | _ => True

/-! ## events and changes -/

theorem changes_append (a b : List Event) : changes (a ++ b) = changes a ++ changes b := filterMap_append ..

theorem changes_other {e : Event} (es : List Event) (h : e.type ≠ .stateChanged) :
    changes (es ++ [e]) = changes es := by
  have hnone : e.change = none := if_neg h
  rw [changes_append, changes, changes, filterMap_cons_none hnone, filterMap_nil, append_nil]

theorem changes_changed (es : List Event) (actorID : String) (src dst : State) (now : Int) :
    changes (es ++ [.changed actorID src dst now]) = changes es ++ [(src, dst)] := changes_append ..

theorem change_self (s : State) : change s s = [] := if_pos rfl

variable {src dst : State}

theorem change_ne (h : src ≠ dst) : change src dst = [(src, dst)] := if_neg h

/-- the events tell all but the changes `cs`, which come last -/
def Owes (cs : List (State × State)) (w : World) : Prop := changes w.published ++ cs = w.made

theorem owes_nil {w : World} : Owes [] w ↔ Told w := by
  unfold Owes Told
  rw [append_nil]

theorem owes_set {w : World} (h : Told w) (r : Room) : Owes (change w.room.state r.state) (w.set r) :=
  congrArg (· ++ change w.room.state r.state) h

section
variable {cs : List (State × State)} {w m : World} {e : List Participant} {now : Int} {Q : Unit → World → Prop}
variable {ev : Event}

theorem owes_other (h : Owes cs w) (hev : ev.type ≠ .stateChanged) :
    Owes cs { w with published := w.published ++ [ev] } := by
  unfold Owes
  rw [changes_other _ hev]
  exact h

variable {actorID : String}

theorem told_changed (h : Owes [(src, dst)] w) :
    Told { w with published := w.published ++ [.changed actorID src dst now] } := by
  unfold Told
  rw [changes_changed]
  exact h

/-! ## the calls of the members -/

theorem wp_report {changed : Bool} {reply : Reply} (h : Owes (change src dst) w) (hc : changed = decide (dst ≠ src)) :
    (report changed actorID src dst now reply).wp exec (fun _ => Told) w := by
  unfold report
  by_cases hne : dst = src
  · rw [hc, decide_eq_false (not_not.mpr hne), if_neg Bool.false_ne_true]
    rw [hne, change_self] at h
    intro e _ m he
    cases he
    exact owes_nil.mp h
  · rw [hc, decide_eq_true hne, if_pos rfl]
    rw [change_ne (Ne.symm hne)] at h
    intro e _ m he
    cases he
    intro e _ m he
    cases he
    exact told_changed h

theorem wp_join (req : JoinRequest) (h : Told w) : (join req now).wp exec (fun _ => Told) w := by
  refine wp_registered (fun _ => ?_) fun _ => h
  intro e res m he
  rcases settle_cases he with ⟨⟨err, -, rfl⟩, rfl⟩ | ⟨jr, r, hj, rfl, rfl⟩
  · exact h
  obtain ⟨-, p, -, -, rfl, hchanged, hprev, hnew, -⟩ := Room.join_ok hj
  intro e _ m he
  cases he
  refine wp_report ?_ ?_
  · refine owes_other ?_ ?_
    · rw [hprev, hnew]
      exact owes_set h _
    · show (if jr.reconnected = true then EventType.roomRecovered else .userJoined) ≠ .stateChanged
      split <;> exact nofun
  · rw [hchanged, hprev, hnew]

theorem wp_left {userID : String} {lr : LeaveResult} {r : Room} (h : Told w)
    (hl : w.room.leave userID now = .ok (lr, r)) (hev : ev.type ≠ .stateChanged) :
    ((access (.publish ev)).bind fun _ =>
      report lr.stateChanged actorID lr.previousState lr.newState now (.left lr)).wp exec (fun _ => Told)
        (w.set r) := by
  obtain ⟨-, -, hchanged, hprev, hnew⟩ := Room.leave_ok hl
  intro e _ m he
  cases he
  refine wp_report ?_ ?_
  · refine owes_other ?_ hev
    rw [hprev, hnew]
    exact owes_set h _
  · rw [hchanged, hprev, hnew]

theorem wp_leave (userID : String) (h : Told w) : (leave userID now).wp exec (fun _ => Told) w := by
  refine wp_registered (fun _ => ?_) fun _ => h
  intro e res m he
  rcases settle_cases he with ⟨⟨err, -, rfl⟩, rfl⟩ | ⟨lr, r, hl, rfl, rfl⟩
  · exact h
  · exact wp_left h hl nofun

theorem wp_kick (actorID targetID : String) (h : Told w) : (kick actorID targetID now).wp exec (fun _ => Told) w := by
  refine wp_registered (fun _ => ?_) fun _ => h
  intro e res m he
  rcases settle_cases he with ⟨⟨err, -, rfl⟩, rfl⟩ | ⟨lr, r, hl, rfl, rfl⟩
  · exact h
  · exact wp_left h (Room.remove_ok hl).1 nofun

theorem wp_transferOwnership (actorID newOwnerID : String) (h : Told w) :
    (transferOwnership actorID newOwnerID now).wp exec (fun _ => Told) w := by
  refine wp_registered (fun _ => ?_) fun _ => h
  intro e res m he
  rcases settle_cases he with ⟨⟨err, -, rfl⟩, rfl⟩ | ⟨tr, r, ht, rfl, rfl⟩
  · exact h
  obtain ⟨ms, hr, -⟩ := Room.transferOwnership_frame ht
  have howes := owes_set h r
  rw [hr, change_self] at howes
  intro e _ m he
  cases he
  intro e _ m he
  cases he
  rw [hr]
  exact owes_nil.mp (owes_other howes nofun)

/-! ## transitions -/

theorem transition_exec {res : Except Error Unit} (h : exec (.transition dst now) w e = some (res, m)) :
    (∃ err, res = .error err) ∧ m = w ∨
      res = .ok () ∧ validate w.room.state dst = true ∧ ∃ r, r.state = dst ∧ m = w.set r := by
  rcases settle_cases h with ⟨⟨err, -, rfl⟩, rfl⟩ | ⟨_, r, hx, rfl, rfl⟩
  · exact .inl ⟨⟨err, rfl⟩, rfl⟩
  cases ht : w.room.transition dst now with
  | error err =>
    rw [ht] at hx
    cases hx
  | ok r' =>
    rw [ht] at hx
    cases hx
    obtain ⟨hv, hr⟩ := Room.transition_ok ht
    exact .inr ⟨rfl, hv, r, by rw [hr], rfl⟩

theorem wp_move {next : Task Unit} (h : Told w) (hsrc : w.room.state = src) (hne : src ≠ dst)
    (hnext : ∀ m, Owes [(src, dst)] m → next.wp exec (fun _ => Told) m) :
    (move dst now next).wp exec (fun _ => Told) w := by
  intro e res m he
  rcases transition_exec he with ⟨⟨err, rfl⟩, rfl⟩ | ⟨rfl, -, r, hr, rfl⟩
  · exact h
  apply hnext
  have howes := owes_set h r
  rw [hsrc, hr, change_ne hne] at howes
  exact howes

theorem wp_publish {next : Task Unit} {Q : Unit → World → Prop}
    (h : next.wp exec Q { w with published := w.published ++ [ev] }) :
    ((access (.publish ev)).bind fun _ => next).wp exec Q w := by
  intro e _ m he
  cases he
  exact h

theorem wp_save (h : Told w) : (access .save).wp exec (fun _ => Told) w := by
  intro e _ m he
  cases he
  exact h

theorem wp_moveChanged (h : Told w) (hsrc : w.room.state = src) (hne : src ≠ dst) :
    (moveChanged src dst now).wp exec (fun _ => Told) w :=
  wp_move h hsrc hne fun _ howes => wp_publish (wp_save (told_changed howes))

theorem wp_moveExpiring (h : Told w) (hsrc : w.room.state = src) (hne : src ≠ .expiring) :
    (moveExpiring src now).wp exec (fun _ => Told) w :=
  wp_move h hsrc hne fun _ howes => wp_publish (wp_publish (wp_save (told_changed (owes_other howes nofun))))

/-! ## connections -/

theorem wp_settleWaiting (h : Told w) : (settleWaiting now).wp exec (fun _ => Told) w := by
  intro e st m he
  cases he
  show (if w.room.state = .active then _ else _ : Task Unit).wp exec (fun _ => Told) w
  split
  · next hactive =>
    intro e prev m he
    cases he
    intro e res m he
    rcases transition_exec he with ⟨⟨err, rfl⟩, rfl⟩ | ⟨rfl, -, r, hr, rfl⟩
    · exact h
    have hne : State.active ≠ .waiting := by decide
    have howes := owes_set h r
    rw [hr, hactive, change_ne hne] at howes
    intro e _ m he
    cases he
    rw [hactive]
    exact told_changed howes
  · exact h

theorem driven_active {s : State} (h : Room.driven s ≠ s) : Room.driven s = .active := by
  unfold Room.driven at h ⊢
  split
  · rfl
  · next hno => exact absurd (if_neg hno) h

theorem wp_settleActive (h : Told w) : (settleActive now).wp exec (fun _ => Told) w := by
  intro e st m he
  cases he
  show (if w.room.state ≠ .active then _ else _ : Task Unit).wp exec (fun _ => Told) w
  split
  · intro e prev m he
    cases he
    intro e changed m he
    cases he
    have howes := owes_set h (w.room.touch now).2
    rw [Room.touch_eq] at howes ⊢
    by_cases hd : Room.driven w.room.state = w.room.state
    · dsimp only at howes
      rw [hd, change_self] at howes
      show (if decide (Room.driven w.room.state ≠ w.room.state) = true then _ else _ : Task Unit).wp exec _ _
      rw [decide_eq_false (not_not.mpr hd), if_neg Bool.false_ne_true, hd]
      exact owes_nil.mp howes
    · have hactive : Room.driven w.room.state = .active := driven_active hd
      rw [change_ne (Ne.symm hd), hactive] at howes
      show (if decide (Room.driven w.room.state ≠ w.room.state) = true then _ else _ : Task Unit).wp exec _ _
      rw [decide_eq_true hd, if_pos rfl, hactive]
      refine wp_publish ?_
      intro e _ m he
      cases he
      exact told_changed (owes_other howes nofun)
  · exact h

theorem wp_setConnected (userID : String) (connected : Bool) (connID sessionID : String) (h : Told w) :
    (setConnected userID connected connID sessionID now).wp exec (fun _ => Told) w := by
  refine wp_registered (fun _ => ?_) fun _ => h
  intro e res m he
  dsimp only [exec] at he
  split at he
  · cases he
    exact h
  next p empty r hset =>
  obtain ⟨-, -, -, -, -, -, hr⟩ := Room.setConnected_eq hset
  have hset : Told (w.set r) := by
    have howes := owes_set h r
    rw [hr, change_self] at howes
    rw [hr]
    exact owes_nil.mp howes
  cases he
  intro e _ m he
  cases he
  let ev : Event := { type := .membershipUpdated, actorID := userID, role := p.role, time := now }
  have hev : ev.type ≠ .stateChanged := nofun
  have hpub := owes_nil.mp (owes_other (owes_nil.mpr hset) hev)
  show ((if empty then settleWaiting now else if connected then settleActive now else .ret ()).bind fun _ =>
    (access .save).bind fun _ => .ret Reply.done).wp exec (fun _ => Told) _
  refine wp_bind.mpr (wp_mono (Q := fun _ => Told) (fun _ t ht => ?_) ?_)
  · intro e _ m he
    cases he
    exact ht
  · cases empty with
    | true => exact wp_settleWaiting hpub
    | false =>
      cases connected with
      | true => exact wp_settleActive hpub
      | false => exact hpub

theorem wp_closeRoom (actorID : String) (h : Told w) (hc : w.room.closes actorID = false) :
    (closeRoom actorID now).wp exec (fun _ => Told) w := by
  refine wp_registered (fun _ => ?_) fun _ => h
  intro e res m he
  cases he
  cases ha : w.room.authorize actorID .closeRoom with
  | error err => exact h
  | ok _ =>
    intro e prev m he
    cases he
    intro e res m he
    rcases transition_exec he with ⟨⟨err, rfl⟩, rfl⟩ | ⟨rfl, hv, r, hr, rfl⟩
    · exact h
    -- the room was closed before
    have hclosed : w.room.state = .closed := by
      unfold Room.closes at hc
      rw [ha, hv] at hc
      exact not_not.mp (of_decide_eq_false hc)
    have howes := owes_set h r
    rw [hclosed, hr, change_self] at howes
    intro e _ m he
    cases he
    intro e _ m he
    cases he
    exact owes_nil.mp (owes_other howes nofun)

end

/-! ## sweeps -/

/-- what the evictions of a sweep leave as it was -/
structure Swept (s t : World) : Prop where
  told : Told t
  state : t.room.state = s.room.state
  kept : ∀ u q, s.room.participants.find u = some q → q.connected = true → t.room.participants.find u = some q

section
variable {s t : World} {cfg : Config} {now recovery lastAct : Int} {p : Participant} {n : Nat}

theorem leave_error {r : Room} {userID : String} {err : Error} (h : r.leave userID now = .error err) :
    r.participants.find userID = none := by
  unfold Room.leave at h
  split at h
  · next hnone => exact hnone
  dsimp only at h
  split at h
  · split at h <;> cases h
  · cases h

theorem emptied_kept {st : State} {ms : Members} (h : st = .active ∨ st = .idle → ms.connectedCount ≠ 0) :
    Room.emptied st ms = st := by
  unfold Room.emptied
  split
  · next hw => exact absurd hw.1 (h hw.2)
  · rfl

/-- the eviction of a member who was away, from a room with somebody connected unless it waits or has ended -/
theorem wp_evict (ht : Swept s t) (hp : s.room.participants.find p.userID = some p) (hdue : p.due cfg now = true)
    (hopen : s.room.state = .active ∨ s.room.state = .idle → s.room.participants.connectedCount ≠ 0)
    (hin : t.room.lastActivity = now ∨ t.room.participants = s.room.participants) :
    (evict cfg now p).wp exec (fun _ u => Swept s u ∧ u.room.lastActivity = now) t := by
  have hoff : p.connected = false := (Bool.not_eq_true' _).mp ((Bool.and_eq_true _ _).mp hdue).1
  unfold evict
  rw [if_pos hdue]
  intro e res m he
  rcases settle_cases he with ⟨⟨err, hl, rfl⟩, rfl⟩ | ⟨lr, r, hl, rfl, rfl⟩
  · rcases hin with hnow | hsame
    · exact ⟨ht, hnow⟩
    have hnone := leave_error hl
    rw [hsame, hp] at hnone
    cases hnone
  · obtain ⟨-, rfl, -⟩ := Room.leave_ok hl
    -- whoever is connected is somebody else and stays
    have hkept : ∀ u q, s.room.participants.find u = some q → q.connected = true →
        (t.room.participants.remove p.userID).find u = some q := by
      intro u q hq hon
      have hne : u ≠ p.userID := by
        rintro rfl
        rw [hp] at hq
        cases hq
        rw [hoff] at hon
        cases hon
      rw [Members.find_remove, if_neg hne]
      exact ht.kept u q hq hon
    have hstate : (t.room.without p.userID now).state = t.room.state := by
      refine emptied_kept fun hst hzero => hopen (ht.state ▸ hst) ?_
      rw [Members.connectedCount_eq_zero] at hzero ⊢
      intro u q hq
      by_contra hon
      have hon' : q.connected = true := (Bool.not_eq_false _).mp hon
      exact hon (hzero u q (hkept u q hq hon'))
    have howes := owes_set ht.told (t.room.without p.userID now)
    rw [hstate, change_self] at howes
    intro e _ m he
    cases he
    exact ⟨⟨owes_nil.mp (owes_other howes nofun), hstate.trans ht.state, hkept⟩, rfl⟩

theorem wp_loop_now {ps : List Participant} (hps : ∀ p ∈ ps, s.room.participants.find p.userID = some p)
    (hopen : s.room.state = .active ∨ s.room.state = .idle → s.room.participants.connectedCount ≠ 0)
    (ht : Swept s t ∧ t.room.lastActivity = now) :
    (each (evict cfg now) ps).wp exec (fun _ u => Swept s u ∧ u.room.lastActivity = now) t := by
  refine wp_each (fun p hp u hu => ?_) ht
  by_cases hdue : p.due cfg now = true
  · exact wp_evict hu.1 (hps p hp) hdue hopen (.inl hu.2)
  unfold evict
  rw [if_neg hdue]
  exact hu

/-- **The loop of a sweep** leaves the state as it is, and the last activity unless it evicts somebody -/
theorem wp_loop (h : Told s) {ps : List Participant} (hps : ∀ p ∈ ps, s.room.participants.find p.userID = some p)
    (hopen : ps.any (·.due cfg now) = true → s.room.state = .active ∨ s.room.state = .idle →
      s.room.participants.connectedCount ≠ 0) :
    (each (evict cfg now) ps).wp exec (fun _ u => Swept s u ∧
      u.room.lastActivity = if ps.any (·.due cfg now) then now else s.room.lastActivity) s := by
  have hself : Swept s s := ⟨h, rfl, fun _ _ hq _ => hq⟩
  induction ps with
  | nil => exact ⟨hself, rfl⟩
  | cons p ps ih =>
    have hrest : ∀ q ∈ ps, s.room.participants.find q.userID = some q := fun q hq => hps q (mem_cons_of_mem _ hq)
    rw [any_cons] at hopen ⊢
    by_cases hdue : p.due cfg now = true
    · rw [hdue, Bool.true_or] at hopen ⊢
      refine wp_bind.mpr (wp_mono (fun _ u hu => ?_)
        (wp_evict hself (hps p (mem_cons_self ..)) hdue (hopen rfl) (.inr rfl)))
      exact wp_loop_now hrest (hopen rfl) hu
    · rw [Bool.eq_false_iff.mpr hdue, Bool.false_or] at hopen ⊢
      show ((evict cfg now p).bind fun _ => each (evict cfg now) ps).wp exec _ s
      unfold evict
      rw [if_neg hdue]
      exact ih hrest hopen

theorem wp_cleanupState (h : Told t) (hexp : t.room.state = .expiring → now - lastAct ≤ cfg.expireTimeout)
    (hclosed : t.room.state = .closed → now - lastAct ≤ retention recovery) :
    (cleanupState recovery cfg now t.room.state lastAct n).wp exec (fun _ => Told) t := by
  unfold cleanupState
  cases hst : t.room.state with
  | active =>
    dsimp only
    split
    · refine wp_moveChanged h hst ?_
      split <;> exact nofun
    · exact h
  | waiting =>
    dsimp only
    split
    · exact wp_moveExpiring h hst nofun
    · exact h
  | idle =>
    dsimp only
    split
    · exact wp_moveChanged h hst nofun
    split
    · exact wp_moveExpiring h hst nofun
    · exact h
  | expiring =>
    dsimp only
    rw [if_neg (Int.not_lt.mpr (hexp hst))]
    exact h
  | closed =>
    rw [if_neg (Int.not_lt.mpr (hclosed hst))]
    exact h
  | _ => exact h

theorem wp_sweep (h : Told s) (hc : Reported recovery s (.sweep now, [])) :
    (sweep recovery now).wp exec (fun _ => Told) s := by
  obtain ⟨hopen, hexp, hclosed⟩ := hc
  refine wp_registered (fun _ => ?_) fun _ => h
  intro e cfg m he
  cases he
  intro e ps m he
  dsimp only [exec] at he
  split at he
  case isFalse => cases he
  next hperm =>
  cases he
  have hlisted : ∀ p ∈ e, s.room.participants.find p.userID = some p :=
    fun p hp => Members.mem_list.mp (hperm.mem_iff.mp hp)
  have hany : e.any (·.due s.room.cfg now) = s.room.participants.list.any (·.due s.room.cfg now) := by
    rw [Bool.eq_iff_iff, any_eq_true, any_eq_true]
    simp only [hperm.mem_iff]
  show (((each (evict s.room.cfg now) e).bind fun _ => cleanupRest recovery s.room.cfg now).bind fun _ =>
    .ret Reply.done).wp exec (fun _ => Told) s
  rw [bind_assoc]
  refine wp_bind.mpr (wp_mono (fun _ t ht => ?_) (wp_loop h hlisted (hany ▸ fun hd hs => hopen hs hd)))
  obtain ⟨hswept, hlast⟩ := ht
  rw [hany] at hlast
  intro e st m he
  cases he
  intro e la m he
  cases he
  intro e n m he
  cases he
  refine wp_bind.mpr (wp_cleanupState hswept.told (fun hst => ?_) fun hst => ?_)
  · rw [hlast]
    exact hexp (hswept.state ▸ hst)
  · rw [hlast]
    exact hclosed (hswept.state ▸ hst)

end

/-! ## sequences of calls -/

theorem told_serve (recovery : Int) (w : World) (l : Call × List (List Participant)) (w' : World) (h : Told w)
    (hc : Reported recovery w l) (hn : serve recovery w l = some w') : Told w' := by
  obtain ⟨c, es⟩ := l
  have hwp : (∃ now, c = .touch now) ∨ (body recovery c).wp exec (fun _ => Told) w := by
    cases c with
    | join req now => exact .inr (wp_join req h)
    | leave userID now => exact .inr (wp_leave userID h)
    | kick actorID targetID now => exact .inr (wp_kick actorID targetID h)
    | transferOwnership actorID newOwnerID now => exact .inr (wp_transferOwnership actorID newOwnerID h)
    | setConnected userID connected connID sessionID now =>
      exact .inr (wp_setConnected userID connected connID sessionID h)
    | closeRoom actorID now => exact .inr (wp_closeRoom actorID h hc)
    | touch now => exact .inl ⟨now, rfl⟩
    | sweep now => exact .inr (wp_sweep h hc)
  rcases hwp with ⟨now, rfl⟩ | hwp
  · cases hn
  have hrun : ((body recovery c).run exec w es).map (·.2) = some w' := by
    cases c with
    | touch now => cases hn
    | _ => exact hn
  obtain ⟨⟨reply, m⟩, hr, rfl⟩ := Option.map_eq_some_iff.mp hrun
  exact wp_run (Q := fun _ => Told) hwp hr

/-- **The events tell what happened**: they are the changes of the state of a room, in order. -/
theorem events_tell (cfg : ManagerConfig) (id name ownerID : String) (custom : Option Config)
    (metadata : Option Metadata) (now : Int) (w w' : World) (ls : List (Call × List (List Participant)))
    (hw : createRoom cfg id name ownerID custom metadata now = .ok w)
    (hC : Along (serve cfg.defaultRecoveryTimeout) (Reported cfg.defaultRecoveryTimeout) w ls)
    (hr : run (serve cfg.defaultRecoveryTimeout) w ls = some w') : changes w'.published = w'.made := by
  have h0 : Told w := by
    cases hw
    rfl
  exact run_inv (told_serve cfg.defaultRecoveryTimeout) h0 hC hr

instance (recovery : Int) (w : World) : ∀ l, Decidable (Reported recovery w l) := by
  intro l
  unfold Reported
  split <;> infer_instance

def aliceJoined : Participant := { alice with lastSeen := 2, connected := true }

def livelyRun : List (Call × List (List Participant)) :=
  [plain (.join { userID := "alice", role := .owner } 2) 5, sweeping 150 [aliceJoined] 6, plain (.leave "alice" 160) 5,
    sweeping 400 [] 7]

theorem events_tell_livelyRun :
    ∃ w ∈ run (serve 60000000000) (aliceWorld 50) livelyRun, changes w.published = w.made ∧
      w.made = [(.waiting, .active), (.active, .idle), (.idle, .waiting), (.waiting, .expiring)] := by
  have hC : Along (serve 60000000000) (Reported 60000000000) (aliceWorld 50) livelyRun := by decide +kernel
  have hend : ∃ w ∈ run (serve 60000000000) (aliceWorld 50) livelyRun,
      w.made = [(.waiting, .active), (.active, .idle), (.idle, .waiting), (.waiting, .expiring)] := by decide +kernel
  obtain ⟨w, hr, hmade⟩ := hend
  exact ⟨w, hr, events_tell {} "r1" "room" "alice" (some ⟨10, 100, 200, 50, .visibilityPrivate⟩) none 1
    (aliceWorld 50) w livelyRun (createRoom_alice 50) hC hr, hmade⟩

/-- a close by the owner, one by a sweep, and an eviction that leaves the room waiting are in no event -/
theorem change_untold : (∃ w ∈ run (serve 60000000000) (aliceWorld 1000) [plain (.closeRoom "alice" 2) 6],
      changes w.published = [] ∧ w.made = [(.waiting, .closed)]) ∧
    (∃ w ∈ run (serve 60000000000) (aliceWorld 1000) [sweeping 300 [alice] 7, sweeping 600 [alice] 6],
      changes w.published = [(.waiting, .expiring)] ∧ w.made = [(.waiting, .expiring), (.expiring, .closed)]) ∧
    ∃ w ∈ run (serve 60000000000) (aliceWorld 50)
        [plain (.join { userID := "alice", role := .owner } 2) 5, sweeping 150 [aliceJoined] 6,
          plain (.setConnected "alice" false "" "" 160) 5,
          sweeping 300 [{ aliceJoined with lastSeen := 160, connected := false }] 5],
      changes w.published = [(.waiting, .active), (.active, .idle)] ∧
        w.made = [(.waiting, .active), (.active, .idle), (.idle, .waiting)] := by
  decide +kernel

end Rooms
