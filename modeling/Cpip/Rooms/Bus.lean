import Cpip.Lib.Outline

/-!
# Rooms: the event bus

Events are delivered to a snapshot of the subscriptions without the lock of the bus, and a subscription is closed in
several steps, of which only the removal takes the lock.

* `Point`, `outlined_body`  what holds at each point of a call;
* `channels_sound`  **no channel is closed twice or sent on when closed**, see also `channels_unsound`.
-/

namespace EventBus

open Pool Lts Code Function

/-! ## channels and subscriptions -/

structure Chan where
  closes : Nat := 0
  late : Nat := 0
deriving DecidableEq

def Chan.close (c : Chan) : Chan := { c with closes := c.closes + 1 }

/-- the program panics when the channel is closed, in a `select` with a `default` as well -/
def Chan.send (c : Chan) : Chan := if c.closes = 0 then c else { c with late := c.late + 1 }

def Chan.Sound (c : Chan) : Prop := c.closes ≤ 1 ∧ c.late = 0

instance (c : Chan) : Decidable c.Sound := inferInstanceAs (Decidable (_ ∧ _))

inductive Once where
  | fresh | running | finished
deriving DecidableEq

structure Subscription where
  ch : Option Chan
  closed : Chan := {}
  once : Once := .fresh

variable {s : Subscription}

namespace Subscription

def deliver (s : Subscription) : Subscription := { s with ch := s.ch.map Chan.send }

def closeDone (s : Subscription) : Subscription := { s with closed := s.closed.close }

def closeCh (s : Subscription) : Subscription := { s with ch := s.ch.map Chan.close }

def Sound (s : Subscription) : Prop := s.closed.Sound ∧ ∀ c ∈ s.ch, c.Sound

instance (s : Subscription) : Decidable s.Sound := by
  unfold Subscription.Sound
  infer_instance

def Open (s : Subscription) : Prop := ∀ c ∈ s.ch, c.closes = 0

theorem deliver_open (h : s.Open) : s.deliver = s := by
  obtain ⟨ch, closed, once⟩ := s
  cases ch with
  | none => rfl
  | some c =>
    have hc : c.send = c := if_pos (h c rfl)
    show Subscription.mk (some c.send) closed once = _
    rw [hc]

end Subscription

structure Bus where
  nextID : Nat := 0
  subs : List Nat := []
  closed : Bool := false
  handles : Nat → Option Subscription := fun _ => none

def new : Bus := {}

variable {t : Subscription} {j : Nat} {id : Nat} {b : Bus}

namespace Bus

def put (b : Bus) (id : Nat) (s : Subscription) : Bus := { b with handles := update b.handles id (some s) }

def Has (b : Bus) (id : Nat) (P : Subscription → Prop) : Prop := ∃ s, b.handles id = some s ∧ P s

@[grind =]
theorem handles_put (j : Nat) : (b.put id s).handles j = if j = id then some s else b.handles j :=
  update_apply ..

theorem put_same (h : b.handles id = some s) : b.put id s = b := by
  show { b with handles := update b.handles id (some s) } = b
  rw [← h, update_eq_self]

theorem has_mono {P Q : Subscription → Prop} (h : b.Has id P) (hPQ : ∀ s, P s → Q s) : b.Has id Q := by
  obtain ⟨s, hs, hP⟩ := h
  exact ⟨s, hs, hPQ s hP⟩

end Bus

/-! ## steps -/

inductive Cmd where
  /-- the critical section of `Subscribe` and `SubscribeFunc` -/
  | subscribe (channel : Bool)
  /-- the snapshot of `Publish` -/
  | targets
  | deliver (id : Nat)
  | once (id : Nat)
  | remove (id : Nat)
  | closeDone (id : Nat)
  | closeCh (id : Nat)
  /-- the function that `once` guards has returned -/
  | finish (id : Nat)
  /-- the critical section of `Bus.Close` -/
  | shut
deriving DecidableEq

abbrev Cmd.Ans : Cmd → Type
  | .subscribe _ => Nat
  | .targets => List Nat
  | .once _ => Bool
  | .shut => Option (List Nat)
  | _ => Unit

def exec : Exec Cmd Cmd.Ans Bus (List Nat)
  | .subscribe channel, b, _ =>
    let id := b.nextID + 1
    let s : Subscription := { ch := if channel then some {} else none }
    if b.closed then some (id, { b with nextID := id }.put id s.closeDone.closeCh)
    else some (id, { b with nextID := id, subs := id :: b.subs }.put id s)
  | .targets, b, order => if order.Perm b.subs then some (order, b) else none
  | .deliver id, b, _ => (b.handles id).map fun s => ((), b.put id s.deliver)
  | .once id, b, _ =>
    match b.handles id with
    | none => none
    | some s =>
      match s.once with
      | .fresh => some (true, b.put id { s with once := .running })
      -- another call is inside: this one waits
      | .running => none
      | .finished => some (false, b)
  | .remove id, b, _ => some ((), { b with subs := b.subs.filter (· ≠ id) })
  | .closeDone id, b, _ => (b.handles id).map fun s => ((), b.put id s.closeDone)
  | .closeCh id, b, _ => (b.handles id).map fun s => ((), b.put id s.closeCh)
  | .finish id, b, _ => (b.handles id).map fun s => ((), b.put id { s with once := .finished })
  | .shut, b, order =>
    if b.closed then some (none, b)
    else if order.Perm b.subs then some (some order, { b with closed := true, subs := [] })
    else none

abbrev Task := Code Cmd Cmd.Ans

def access (c : Cmd) : Task c.Ans := cmd c

def publish : Task Unit := (access .targets).bind fun targets => each (fun id => access (.deliver id)) targets

def closeSubscription (id : Nat) : Task Unit :=
  .call (.once id) fun first =>
    match first with
    | false => .ret ()
    | true => .call (.remove id) fun _ => .call (.closeDone id) fun _ => .call (.closeCh id) fun _ =>
      access (.finish id)

def close : Task Unit :=
  .call .shut fun subs =>
    match subs with
    | none => .ret ()
    | some subs => each closeSubscription subs

inductive Call where
  | subscribe
  | subscribeFunc
  | publish
  | closeSubscription (id : Nat)
  | close

def body : Call → Task (Option Nat)
  | .subscribe => .call (.subscribe true) fun id => .ret (some id)
  | .subscribeFunc => .call (.subscribe false) fun id => .ret (some id)
  | .publish => publish.bind fun _ => .ret none
  | .closeSubscription id => (closeSubscription id).bind fun _ => .ret none
  | .close => close.bind fun _ => .ret none

abbrev BusSys := Sys Bus (Thread Call Cmd Cmd.Ans (Option Nat))

def calls : Prog Call Bus (Thread Call Cmd Cmd.Ans (Option Nat)) (List Nat) := prog exec body

/-! ## where the calls are -/

def delivering : (c : Cmd) → Option c.Ans
  | .deliver _ => some ()
  | _ => none

def delivers {ρ : Type} (id : Nat) (x : Task ρ) : Bool := x.leads delivering (· == .deliver id)

/-- the handle was not given out closed, unless `Close` has been called on it before -/
def Unused (b : Bus) : Cmd → Prop
  | .once id => ∀ s ∈ b.handles id, s.once = .fresh → s.closed.closes = 0
  | _ => True

/-- the command closes the channel of this subscription -/
def closesCh (b : Bus) : Cmd → Option Nat
  | .closeCh id =>
    match b.handles id with
    | some { ch := some _, closed := _, once := _ } => some id
    | _ => none
  | _ => none

/-- no call closes a handle that was given out closed, or a channel to which another call is going to send -/
def Orderly (sys : BusSys) : Act Call (List Nat) → Prop
  | .spawn _ _ => True
  | .step i _ => ∀ t c, sys.pool i = some t → t.next = some c → Unused sys.shared c ∧
      ∀ id, closesCh sys.shared c = some id → ∀ j u, j ≠ i → sys.pool j = some u → delivers id u.code = false

/-- the command stands inside `once`, and this is the subscription -/
def Cmd.holds : Cmd → Option Nat
  | .remove id | .closeDone id | .closeCh id | .finish id => some id
  | _ => none

def holder {ρ : Type} : Task ρ → Option Nat
  | .ret _ => none
  | .call c _ => c.holds

def enters : (c : Cmd) → c.Ans → Option Nat
  | .once id, true => some id
  | _, _ => none

/-- a call gets inside `once` by being let in only -/
def Begins {ρ : Type} : Task ρ → Prop
  | .ret _ => True
  | .call c k => ∀ a id, holder (k a) = some id → c.holds = some id ∨ enters c a = some id

/-! ## assertions -/

def Holds (b : Bus) : Cmd → Prop
  | .deliver id => b.Has id Subscription.Open
  | .remove id => b.Has id fun s => s.once = .running ∧ s.closed.closes = 0 ∧ s.Open
  | .closeDone id => id ∉ b.subs ∧ b.Has id fun s => s.once = .running ∧ s.closed.closes = 0 ∧ s.Open
  | .closeCh id => id ∉ b.subs ∧ b.Has id fun s => s.once = .running ∧ s.Open
  | .finish id => b.Has id fun s => s.once = .running
  | _ => True

structure Point {ρ : Type} (x : Task ρ) (b : Bus) : Prop where
  here : ∀ c k, x = .call c k → Holds b c
  ahead : ∀ id, delivers id x = true → b.Has id Subscription.Open
  begins : Begins x

structure Fit (b : Bus) : Prop where
  known : ∀ id s, b.handles id = some s → id ≤ b.nextID
  live : ∀ id ∈ b.subs, b.Has id Subscription.Open
  sound : ∀ id s, b.handles id = some s → s.Sound
  fresh : ∀ id s, b.handles id = some s → s.once = .fresh → s.closed.closes = 0 → s.Open

abbrev Allowed (b : Bus) (c : Cmd) : Prop := Fit b ∧ Unused b c

section
variable {c : Cmd} {b m : Bus} {e : List Nat} {a : c.Ans}

theorem exec_deliver {a : Unit} (h : exec (.deliver id) b e = some (a, m)) (hopen : b.Has id Subscription.Open) :
    m = b := by
  obtain ⟨s, hs, ho⟩ := hopen
  dsimp only [exec] at h
  rw [hs] at h
  cases h
  rw [Subscription.deliver_open ho, Bus.put_same hs]

theorem exec_once {a : Bool} (h : exec (.once id) b e = some (a, m)) :
    ∃ s, b.handles id = some s ∧ (a = true ∧ s.once = .fresh ∧ m = b.put id { s with once := .running } ∨
      a = false ∧ s.once = .finished ∧ m = b) := by
  dsimp only [exec] at h
  split at h
  · cases h
  next s hs =>
  refine ⟨s, hs, ?_⟩
  split at h
  · next ho =>
    cases h
    exact .inl ⟨rfl, ho, rfl⟩
  · cases h
  next ho =>
  cases h
  exact .inr ⟨rfl, ho, rfl⟩

theorem exec_targets {a : List Nat} (h : exec .targets b e = some (a, m)) : m = b ∧ ∀ id ∈ a, id ∈ b.subs := by
  dsimp only [exec] at h
  split at h
  · next hperm =>
    cases h
    exact ⟨rfl, fun id hid => hperm.mem_iff.mp hid⟩
  · cases h

/-! ## what a step does -/

/-- the bus after a step: with fewer subscriptions at most, with another state of one that is being closed, or with one
more -/
inductive Effect (b : Bus) (c : Cmd) : Bus → Prop
  | keep {m : Bus} (hh : m.handles = b.handles) (hn : m.nextID = b.nextID) (hsubs : ∀ id ∈ m.subs, id ∈ b.subs) :
    Effect b c m
  | change {id : Nat} {s t : Subscription} (hs : b.handles id = some s)
    (hown : s.once = .fresh ∨ s.once = .running ∧ c.holds = some id) (hlater : t.once ≠ .fresh) (hsound : t.Sound)
    (hopen : closesCh b c ≠ some id → s.Open → t.Open) (hlive : id ∈ b.subs → t.Open) : Effect b c (b.put id t)
  | arrive {s : Subscription} {subs : List Nat} (hsound : s.Sound)
    (hsubs : subs = b.subs ∧ s.closed.closes = 1 ∨ subs = (b.nextID + 1) :: b.subs ∧ s.Open) :
    Effect b c ({ b with nextID := b.nextID + 1, subs := subs }.put (b.nextID + 1) s)

/-- the channel is closed unless there is none, and then the command closes one -/
theorem closeCh_open (hs : b.handles id = some s) (hne : closesCh b (.closeCh id) ≠ some id) : s.closeCh.Open := by
  obtain ⟨ch, closed, once⟩ := s
  cases ch with
  | none => exact nofun
  | some c =>
    refine absurd ?_ hne
    unfold closesCh
    dsimp only
    rw [hs]

theorem exec_effect (hf : Fit b) (hc : Holds b c) (h : exec c b e = some (a, m)) : Effect b c m := by
  have hlive : ∀ {id s}, b.handles id = some s → id ∈ b.subs → s.Open := by
    intro id s hs hid
    obtain ⟨t, ht, hopen⟩ := hf.live id hid
    cases hs.symm.trans ht
    exact hopen
  cases c with
  | subscribe channel =>
    dsimp only [exec] at h
    split at h
    · cases h
      exact .arrive (by cases channel <;> decide) (.inl ⟨rfl, rfl⟩)
    · cases h
      exact .arrive (by cases channel <;> decide) (.inr ⟨rfl, by cases channel <;> simp [Subscription.Open]⟩)
  | targets =>
    obtain ⟨rfl, -⟩ := exec_targets h
    exact .keep rfl rfl fun _ hid => hid
  | deliver id =>
    rw [exec_deliver h hc]
    exact .keep rfl rfl fun _ hid => hid
  | once id =>
    obtain ⟨s, hs, ⟨-, ho, rfl⟩ | ⟨-, -, rfl⟩⟩ := exec_once h
    · exact .change hs (.inl ho) nofun (hf.sound id s hs) (fun _ ho => ho) fun hid => hlive (s := s) hs hid
    · exact .keep rfl rfl fun _ hid => hid
  | remove id =>
    cases h
    exact .keep rfl rfl fun j hj => (List.mem_filter.mp hj).1
  | closeDone id =>
    obtain ⟨hgone, s, hs, hrun, h0, hopen⟩ := hc
    have hsound := hf.sound id s hs
    dsimp only [exec] at h
    rw [hs] at h
    cases h
    refine .change hs (.inr ⟨hrun, rfl⟩) (fun hno => ?_) ⟨⟨?_, hsound.1.2⟩, hsound.2⟩ (fun _ ho => ho) fun _ => hopen
    · cases hrun.symm.trans hno
    · exact Nat.le_of_eq (congrArg (· + 1) h0)
  | closeCh id =>
    obtain ⟨hgone, s, hs, hrun, hopen⟩ := hc
    have hsound := hf.sound id s hs
    dsimp only [exec] at h
    rw [hs] at h
    cases h
    refine .change hs (.inr ⟨hrun, rfl⟩) (fun hno => ?_) ⟨hsound.1, fun ch hch => ?_⟩
      (fun hne _ => closeCh_open hs hne) fun hid => absurd hid hgone
    · cases hrun.symm.trans hno
    · obtain ⟨c, hc, rfl⟩ := Option.map_eq_some_iff.mp hch
      exact ⟨Nat.le_of_eq (congrArg (· + 1) (hopen c hc)), (hsound.2 c hc).2⟩
  | finish id =>
    obtain ⟨s, hs, hrun⟩ := hc
    dsimp only [exec] at h
    rw [hs] at h
    cases h
    exact .change hs (.inr ⟨hrun, rfl⟩) nofun (hf.sound id s hs) (fun _ ho => ho) fun hid => hlive (s := s) hs hid
  | shut =>
    dsimp only [exec] at h
    split at h
    · cases h
      exact .keep rfl rfl fun _ hid => hid
    split at h
    · cases h
      exact .keep rfl rfl nofun
    · cases h

/-! ## what is left as it is -/

/-- **what is known before a step keeps the bus fit** -/
theorem fit_exec (hf : Fit b) (h : Effect b c m) : Fit m := by
  obtain ⟨known, live, sound, fresh⟩ := hf
  cases h with
  | keep hh hn hsubs =>
    refine ⟨?_, fun j hj => ?_, ?_, ?_⟩
    · rwa [hh, hn]
    · obtain ⟨u, hu, ho⟩ := live j (hsubs j hj)
      exact ⟨u, hh ▸ hu, ho⟩
    · rwa [hh]
    · rwa [hh]
  | change hs hown hlater hsound hopen hlive =>
    refine ⟨by grind [Bus.put], fun j (hj : j ∈ b.subs) => ?_, by grind, by grind⟩
    obtain ⟨u, hu, ho⟩ := live j hj
    grind [Bus.Has]
  | arrive hsound hsubs =>
    refine ⟨by grind [Bus.put], fun j hj => ?_, by grind, by grind⟩
    have := live j
    grind [Bus.Has, Bus.put]

/-- a call inside `once` has the subscription to itself -/
theorem running_exec (hf : Fit b) (hne : c.holds ≠ some j) (hs : b.handles j = some s)
    (hrun : s.once = .running) (h : Effect b c m) : m.handles j = some s := by
  have hknown := hf.known j s hs
  cases h with
  | keep hh hn hsubs => exact (congrFun hh j).trans hs
  | change hs' hown hlater hsound hopen hlive => grind
  | arrive hsound hsubs => grind

theorem open_exec (hf : Fit b) (hne : closesCh b c ≠ some j) (hj : b.Has j Subscription.Open)
    (h : Effect b c m) : m.Has j Subscription.Open := by
  obtain ⟨s, hs, ho⟩ := hj
  have hknown := hf.known j s hs
  cases h with
  | keep hh hn hsubs => exact ⟨s, (congrFun hh j).trans hs, ho⟩
  | change hs' hown hlater hsound hopen hlive => grind [Bus.Has]
  | arrive hsound hsubs => exact ⟨s, by grind, ho⟩

theorem gone_exec (hf : Fit b) (hs : b.handles j = some s) (hj : j ∉ b.subs) (h : Effect b c m) : j ∉ m.subs := by
  have hknown := hf.known j s hs
  cases h with
  | keep hh hn hsubs => exact fun hmem => hj (hsubs j hmem)
  | change hs' hown hlater hsound hopen hlive => exact hj
  | arrive hsound hsubs => grind [Bus.put]

/-- **a step of one call leaves what the others know**, when it closes no channel that they are going to send on -/
theorem holds_other {d : Cmd} (hf : Fit b) (hd : Holds b d) (hpair : ∀ j, d.holds = some j → c.holds ≠ some j)
    (hsend : ∀ j, d = .deliver j → closesCh b c ≠ some j) (h : Effect b c m) : Holds m d := by
  have hrun : ∀ (P : Subscription → Prop) j, d.holds = some j → b.Has j (fun s => s.once = .running ∧ P s) →
      m.Has j fun s => s.once = .running ∧ P s := by
    intro P j hj hP
    obtain ⟨s, hs, hs', hP⟩ := hP
    exact ⟨s, running_exec hf (hpair j hj) hs hs' h, hs', hP⟩
  cases d with
  | subscribe _ | targets | once _ | shut => trivial
  | deliver j => exact open_exec hf (hsend j rfl) hd h
  | remove j => exact hrun _ j rfl hd
  | closeDone j | closeCh j =>
    have ⟨hgone, s, hs, _⟩ := hd
    exact ⟨gone_exec hf hs hgone h, hrun _ j rfl hd.2⟩
  | finish j =>
    obtain ⟨s, hs, hs'⟩ := hd
    exact ⟨s, running_exec hf (hpair j rfl) hs hs' h, hs'⟩

end

/-! ## the outlines -/

section
variable {ρ : Type}

/-- the code waits for a lock or returns, and is going to send nothing before that -/
structure Quiet (x : Task ρ) : Prop where
  holder : holder x = none
  point : ∀ b, Point x b

theorem quiet_ret (r : ρ) : Quiet (.ret r : Task ρ) :=
  ⟨rfl, fun _ => ⟨nofun, nofun, trivial⟩⟩

theorem quiet_closeSubscription (id : Nat) {f : Unit → Task ρ} (hf : Quiet (f ())) :
    Quiet ((closeSubscription id).bind f) := by
  refine ⟨rfl, fun b => ⟨fun c k h => ?_, nofun, fun a j hj => ?_⟩⟩
  · cases h
    trivial
  cases a with
  | false =>
    have hno : holder (f ()) = some j := hj
    rw [hf.holder] at hno
    cases hno
  | true => exact .inr hj

theorem outlined_closeSubscription (id : Nat) {f : Unit → Task ρ} (hf : Quiet (f ()))
    (hout : (f ()).Outlined exec Allowed Point) : ((closeSubscription id).bind f).Outlined exec Allowed Point := by
  refine outlined_call fun b e first m hok he => ?_
  obtain ⟨s, hs, ⟨rfl, ho, rfl⟩ | ⟨rfl, -, rfl⟩⟩ := exec_once he
  swap
  · exact ⟨fun _ => hf.point _, hout⟩
  have h0 : s.closed.closes = 0 := hok.2 s hs ho
  have hopen : s.Open := hok.1.fresh id s hs ho h0
  refine ⟨fun _ => ⟨fun c k h => ?_, nofun, fun _ j hj => .inl hj⟩, outlined_call fun b e _ m hok he => ?_⟩
  · cases h
    exact ⟨_, update_self .., rfl, h0, hopen⟩
  cases he
  refine ⟨fun hp => ⟨fun c k h => ?_, nofun, fun _ j hj => .inl hj⟩, outlined_call fun b e _ m hok he => ?_⟩
  · cases h
    exact ⟨fun hmem => of_decide_eq_true (List.mem_filter.mp hmem).2 rfl, hp.here _ _ rfl⟩
  obtain ⟨s, hs, hx⟩ := Option.map_eq_some_iff.mp he
  cases hx
  refine ⟨fun hp => ⟨fun c k h => ?_, nofun, fun _ j hj => .inl hj⟩, outlined_call fun b e _ m hok he => ?_⟩
  · cases h
    obtain ⟨hgone, t, ht, hrun, -, hopen⟩ := hp.here _ _ rfl
    cases hs.symm.trans ht
    exact ⟨hgone, _, update_self .., hrun, hopen⟩
  obtain ⟨s, hs, hx⟩ := Option.map_eq_some_iff.mp he
  cases hx
  refine ⟨fun hp => ⟨fun c k h => ?_, nofun, fun _ j hj => .inl ?_⟩,
    outlined_call fun b e _ m hok he => ⟨fun _ => hf.point m, hout⟩⟩
  · cases h
    obtain ⟨-, t, ht, hrun, -⟩ := hp.here _ _ rfl
    cases hs.symm.trans ht
    exact ⟨_, update_self .., hrun⟩
  · have hno : holder (f ()) = some j := hj
    rw [hf.holder] at hno
    cases hno

theorem outlined_closeAll (subs : List Nat) (r : ρ) : Quiet ((each closeSubscription subs).bind fun _ => .ret r) ∧
      ((each closeSubscription subs).bind fun _ => .ret r).Outlined exec Allowed Point := by
  induction subs with
  | nil => exact ⟨quiet_ret r, trivial⟩
  | cons id subs ih =>
    show Quiet (((closeSubscription id).bind fun _ => each closeSubscription subs).bind _) ∧
      (((closeSubscription id).bind fun _ => each closeSubscription subs).bind _).Outlined exec Allowed Point
    rw [bind_assoc]
    exact ⟨quiet_closeSubscription id ih.1, outlined_closeSubscription id ih.1 ih.2⟩

variable (targets : List Nat)

abbrev sends (r : ρ) : Task ρ :=
  (each (fun id => access (.deliver id)) targets).bind fun _ => .ret r

theorem holder_sends (r : ρ) : holder (sends targets r) = none := by
  cases targets with
  | nil | cons id targets => rfl

theorem begins_sends (r : ρ) : Begins (sends targets r) := by
  cases targets with
  | nil => trivial
  | cons id targets =>
    intro a j hj
    have hno : holder (sends targets r) = some j := hj
    rw [holder_sends] at hno
    cases hno

theorem mem_of_delivers {targets : List Nat} {r : ρ} (h : delivers j (sends targets r) = true) : j ∈ targets := by
  induction targets with
  | nil => cases h
  | cons id targets ih =>
    rcases (Bool.or_eq_true _ _).mp h with hid | hrest
    · cases eq_of_beq hid
      exact List.mem_cons_self ..
    · exact List.mem_cons_of_mem _ (ih hrest)

theorem point_sends {targets : List Nat} (r : ρ) (h : ∀ id ∈ targets, b.Has id Subscription.Open) :
    Point (sends targets r) b := by
  refine ⟨fun c k hx => ?_, fun j hj => h j (mem_of_delivers hj), begins_sends targets r⟩
  cases targets with
  | nil => cases hx
  | cons id targets =>
    cases hx
    exact h id (List.mem_cons_self ..)

theorem outlined_sends (r : ρ) : (sends targets r).Outlined exec Allowed Point := by
  induction targets with
  | nil => trivial
  | cons id targets ih =>
    refine outlined_call fun b e _ m _ he => ⟨fun hp => ?_, ih⟩
    have hopen : b.Has id Subscription.Open := hp.here _ _ rfl
    cases exec_deliver he hopen
    refine ⟨fun c k hx => ?_, fun j hj => hp.ahead j (leads_next rfl hj), begins_sends targets r⟩
    cases targets with
    | nil => cases hx
    | cons id' targets =>
      cases hx
      exact hp.ahead id' (leads_next rfl (leads_call (beq_self_eq_true _)))

end

theorem outlined_once {c : Cmd} {k : c.Ans → Task (Option Nat)} (hk : ∀ a, Quiet (k a))
    (hout : ∀ a, (k a).Outlined exec Allowed Point) : (call c k).Outlined exec Allowed Point :=
  outlined_call fun _ _ a m _ _ => ⟨fun _ => (hk a).point m, hout a⟩

theorem outlined_body (w : Call) : (body w).Outlined exec Allowed Point := by
  cases w with
  | subscribe | subscribeFunc =>
    exact outlined_once (fun id => quiet_ret (some id)) fun _ => trivial
  | publish =>
    refine outlined_call fun b e targets m hok he => ⟨fun _ => ?_, outlined_sends targets none⟩
    obtain ⟨rfl, hmem⟩ := exec_targets he
    exact point_sends none fun id hid => hok.1.live id (hmem id hid)
  | closeSubscription id => exact outlined_closeSubscription id (quiet_ret none) trivial
  | close =>
    refine outlined_once (fun subs => ?_) fun subs => ?_
    · cases subs with
      | none => exact quiet_ret none
      | some subs => exact (outlined_closeAll subs none).1
    · cases subs with
      | none => trivial
      | some subs => exact (outlined_closeAll subs none).2

theorem quiet_body (w : Call) : holder (body w) = none ∧ ∀ b, Point (body w) b := by
  cases w with
  | closeSubscription id =>
    have hq : Quiet (body (.closeSubscription id)) := quiet_closeSubscription id (quiet_ret none)
    exact ⟨hq.holder, hq.point⟩
  | subscribe | subscribeFunc =>
    refine ⟨rfl, fun b => ⟨fun c k h => ?_, nofun, nofun⟩⟩
    cases h
    trivial
  | publish =>
    refine ⟨rfl, fun b => ⟨fun c k h => ?_, nofun, fun targets j hj => ?_⟩⟩
    · cases h
      trivial
    have hno : holder (sends targets (none : Option Nat)) = some j := hj
    rw [holder_sends] at hno
    cases hno
  | close =>
    refine ⟨rfl, fun b => ⟨fun c k h => ?_, nofun, fun subs j hj => ?_⟩⟩
    · cases h
      trivial
    cases subs with
    | none => cases hj
    | some subs =>
      have hno : holder ((each closeSubscription subs).bind fun _ => (.ret none : Task (Option Nat))) = some j := hj
      rw [(outlined_closeAll subs none).1.holder] at hno
      cases hno

/-! ## interleavings -/

/-- two calls are not inside `once` of the same subscription -/
def Apart (x y : Task (Option Nat)) : Prop := ∀ id, holder x = some id → holder y ≠ some id

theorem apart_symm {x y : Task (Option Nat)} (h : Apart x y) : Apart y x := fun id hy hx => h id hx hy

/-- every call is at a point of its outline, and no two are inside `once` of the same subscription -/
abbrev BusInv : BusSys → Prop := OutlineSys exec Fit Allowed (fun _ => Point) Apart

theorem running_of_holder {x : Task (Option Nat)} (h : Point x b) (hj : holder x = some j) :
    b.Has j fun s => s.once = .running := by
  cases x with
  | ret r => cases hj
  | call d k =>
    have hd : Holds b d := h.here d k rfl
    cases d with
    | subscribe _ | targets | once _ | shut | deliver _ => cases hj
    | remove id =>
      cases hj
      exact Bus.has_mono hd fun _ hs => hs.1
    | closeDone id | closeCh id =>
      cases hj
      exact Bus.has_mono hd.2 fun _ hs => hs.1
    | finish id =>
      cases hj
      exact hd

theorem apart_step {c : Cmd} {k : c.Ans → Task (Option Nat)} {y : Task (Option Nat)} {b m : Bus} {e : List Nat}
    {a : c.Ans} (hb : Begins (.call c k)) (hy : Point y b) (hapart : Apart (.call c k) y)
    (h : exec c b e = some (a, m)) : Apart (k a) y := by
  intro id hx hyid
  rcases hb a id hx with hc | henters
  · exact hapart id hc hyid
  cases c with
  | once j =>
    obtain ⟨s, hs, ⟨rfl, hfresh, -⟩ | ⟨rfl, -, -⟩⟩ := exec_once h
    · cases henters
      obtain ⟨t, ht, hrun⟩ := running_of_holder hy hyid
      cases hs.symm.trans ht
      cases hfresh.symm.trans hrun
    · cases henters
  | _ => cases henters

theorem busInv_next (sys : BusSys) (l : Act Call (List Nat)) (sys' : BusSys) (hi : BusInv sys)
    (hc : Orderly sys l) (hn : calls.next sys l = some sys') : BusInv sys' := by
  refine outline_next (D := Orderly) (fun sys i t c k a m h => ?_) (fun sys i t c k a m h => ?_)
    (fun w b _ => ⟨outlined_body w, (quiet_body w).2 b⟩) (fun sys i t c k a m h j u hj hu hapart hu' => ?_)
    (fun w x => ?_) (fun sys i t c k a m h j u hj hu hu' hapart _ => ?_) sys l sys' hi hc hn
  · obtain ⟨e, hD, -⟩ := h.guard
    exact ⟨h.shared, (hD t c h.pool (next_of_code h.code)).1⟩
  · obtain ⟨e, -, he⟩ := h.guard
    exact fit_exec h.shared (exec_effect h.shared (h.self.here c k h.code) he)
  · obtain ⟨e, hD, he⟩ := h.guard
    have heff : Effect sys.shared c m := exec_effect h.shared (h.self.here c k h.code) he
    have hsend : ∀ id, closesCh sys.shared c = some id → delivers id u.code = false :=
      fun id hid => (hD t c h.pool (next_of_code h.code)).2 id hid j u hj hu
    rw [h.code] at hapart
    refine ⟨fun d k' hcode => ?_, fun id hid => ?_, hu'.begins⟩
    · refine holds_other h.shared (hu'.here d k' hcode) (fun id hid hcid => ?_) (fun id hd hid => ?_) heff
      · refine hapart id hcid ?_
        rw [hcode]
        exact hid
      · subst hd
        have hyes : delivers id u.code = true := by
          rw [hcode]
          exact leads_call (beq_self_eq_true _)
        rw [hsend id hid] at hyes
        cases hyes
    · refine open_exec h.shared (fun hclose => ?_) (hu'.ahead id hid) heff
      rw [hsend id hclose] at hid
      cases hid
  · have hno : holder (body w) = none := (quiet_body w).1
    have hapart : Apart (body w) x := fun id hid => by rw [hno] at hid; cases hid
    exact ⟨hapart, apart_symm hapart⟩
  · obtain ⟨e, -, he⟩ := h.guard
    have hbegins : Begins t.code := h.self.begins
    rw [h.code] at hbegins hapart
    have hnext : Apart (k a) u.code := apart_step hbegins hu' hapart he
    exact ⟨hnext, apart_symm hnext⟩

theorem fit_new : Fit new :=
  ⟨nofun, nofun, nofun, nofun⟩

/-- **No channel is closed twice and nothing is sent on a closed channel**, whatever orderly calls interleave. -/
theorem channels_sound (acts : List (Act Call (List Nat))) (sys : BusSys)
    (hC : Along calls.next Orderly (idle new) acts) (hr : run calls.next (idle new) acts = some sys)
    (id : Nat) (s : Subscription) (hs : sys.shared.handles id = some s) : s.Sound :=
  (run_inv busInv_next (inv_idle fit_new) hC hr).shared.sound id s hs

/-! ## runs -/

instance (b : Bus) : ∀ c, Decidable (Unused b c) := by
  intro c
  unfold Unused
  split <;> infer_instance

/-- a call on its own, with the order in which it finds the subscriptions -/
def alone (i : Nat) (w : Call) (n : Nat) (order : List Nat) : List (Act Call (List Nat)) :=
  .spawn i w :: List.replicate n (.step i order)

def busyRun : List (Act Call (List Nat)) :=
  alone 0 .subscribe 1 [] ++ alone 1 .subscribe 1 [] ++ alone 2 .publish 2 [1, 2] ++
    alone 3 (.closeSubscription 1) 5 [] ++ [.step 2 []] ++ alone 4 .close 6 [2] ++ alone 5 .subscribe 1 []

theorem channels_sound_busyRun :
    ∃ sys ∈ run calls.next (idle new) busyRun, ∃ s ∈ sys.shared.handles 1, s.closed.closes = 1 ∧ s.Sound := by
  have hC : Along calls.next Orderly (idle new) busyRun :=
    along_pairs (n := 6)
      (D := fun b i t j u => ∀ c ∈ t.next, Unused b c ∧ (j ≠ i → ∀ id ∈ closesCh b c, delivers id u.code = false))
      (fun _ _ _ => trivial)
      (fun _ i _ h t c hp hc => ⟨(h t i t hp hp c hc).1, fun id hid j u hj hu => (h t j u hp hu c hc).2 hj id hid⟩)
      (by decide +kernel) (by decide +kernel)
  have hend : ∃ sys ∈ run calls.next (idle new) busyRun,
      ∃ s ∈ sys.shared.handles 1, s.closed.closes = 1 := by decide +kernel
  obtain ⟨sys, hr, s, hs, h1⟩ := hend
  exact ⟨sys, hr, s, hs, h1, channels_sound busyRun sys hC hr 1 s hs⟩

/-- a handle is closed between the snapshot of a `Publish` and its send, or by its owner after the bus -/
theorem channels_unsound : (∃ sys ∈ run calls.next (idle new) (alone 0 .subscribe 1 [] ++ alone 1 .publish 1 [1] ++
        alone 2 (.closeSubscription 1) 5 [] ++ [.step 1 []]),
      ∃ s ∈ sys.shared.handles 1, s.ch = some { closes := 1, late := 1 }) ∧
    ∃ sys ∈ run calls.next (idle new) (alone 0 .close 1 [] ++ alone 1 .subscribe 1 [] ++
        alone 2 (.closeSubscription 1) 5 []),
      ∃ s ∈ sys.shared.handles 1, s.closed.closes = 2 ∧ s.ch = some { closes := 2, late := 0 } := by
  decide +kernel

end EventBus
