import Cpip.Queue.History

/-!
# Queue: how often a message is handed to a worker

A message has two counters: its retry count, which a failed attempt raises, and the delivery count of its entry,
which a claim raises and a requeue starts again.  A reclaimed message goes on with the larger one.

* `Counted`, `Ready`, `Given`  what the counters of a message that a thread has bound;
* `tracks_other`, `bounded_next`  **an orderly step keeps what is known about the other threads and about the
  shared state**.
-/

namespace Queue

open List Pool

variable (cfg : Config)

def Config.room (m : Message) : Nat := (cfg.ceiling m).toNat

theorem room_alike {cfg : Config} {a b : Message} (h : a.Alike b) : cfg.room a = cfg.room b := by
  unfold Config.room Config.ceiling
  rw [h.ceiling]

/-! ## the condition -/

/-- nobody has the entry, and its message is still to be settled -/
def Abandoned (s : State) (e : Entry Fields) : Prop :=
  match e.message with
  | some m => openEntry m.origin s.log = some e.id ∧ gripped e.id s.log = false
  | none => True

def deliveries (s : State) (m : Message) : Ans → Nat
  | .ok _ => (s.exec.pending cfg.streams.group m.streamID).getD 1
  | .fail _ => 1

/-- the step reclaims abandoned entries only, and their delivery count exceeds the ceiling or the retry count -/
def Pc.Orderly (s : State) (a : Ans) : Pc → Prop
  | .recoverClaim start => ∀ e ∈ (Pc.recoverClaim start).claims cfg s a, Abandoned s e
  | .recoverCount _ m _ =>
    (deliveries cfg s m a : Int) > cfg.ceiling m ∨ m.retryCount < deliveries cfg s m a - 1
  | _ => True

def Orderly (s : Sys State Pc) : Move Kind Ans → Prop
  | .act (.step i a) => ∀ pc ∈ s.pool i, pc.Orderly cfg s.shared a
  | _ => True

instance (s : State) (e : Entry Fields) : Decidable (Abandoned s e) := by
  unfold Abandoned
  split <;> infer_instance

instance (cfg : Config) (s : State) (a : Ans) (pc : Pc) : Decidable (pc.Orderly cfg s a) := by
  unfold Pc.Orderly
  split <;> infer_instance

instance (cfg : Config) (s : Sys State Pc) (l : Move Kind Ans) : Decidable (Orderly cfg s l) := by
  unfold Orderly
  rcases l with ⟨_ | _⟩ | _ <;> infer_instance

/-! ## what the counters bound -/

section
variable (cfg : Config) (s : State)

structure Carried (m : Message) : Prop where
  entry : openEntry m.origin s.log = some m.streamID
  grip : gripped m.streamID s.log = true
  below : ∃ g, s.exec.groups cfg.streams.group = some g ∧ g.lastDelivered.less m.streamID = false

def Counted (m : Message) : Prop :=
  ∀ g, s.exec.groups cfg.streams.group = some g → ∀ p ∈ g.pending, p.id = m.streamID →
    hands m.origin s.log ≤ min (max m.retryCount (p.count - 2)) (cfg.room m) + 1

/-- the retry count is covered by the counters of the entry -/
def Fits (m : Message) : Prop :=
  ∃ e ∈ s.exec.entries, e.id = m.streamID ∧ ∃ x, e.fields = .data x ∧
    ∀ g, s.exec.groups cfg.streams.group = some g → ∀ p ∈ g.pending, p.id = m.streamID →
      m.retryCount ≤ max x.retryCount (p.count - 1)

def Ready (m : Message) : Prop :=
  hands m.origin s.log ≤ min m.retryCount (cfg.room m) ∧ Fits cfg s m

def Given (m : Message) : Prop :=
  hands m.origin s.log ≤ min m.retryCount (cfg.room m) + 1

/-- an entry with the message `x` -/
structure Tally (e : Entry Fields) (x : Message) : Prop where
  total : hands x.origin s.log ≤ cfg.room x + 1
  above : ∀ g, s.exec.groups cfg.streams.group = some g → g.lastDelivered.less e.id = true →
    openEntry x.origin s.log = some e.id ∧ hands x.origin s.log ≤ min x.retryCount (cfg.room x)
  pending : openEntry x.origin s.log = some e.id →
    ∀ g, s.exec.groups cfg.streams.group = some g → ∀ p ∈ g.pending, p.id = e.id →
      hands x.origin s.log ≤ min (max x.retryCount (p.count - 1)) (cfg.room x) + 1

def Timer.Live (t : Timer) : Prop := t.state = .waiting ∨ t.state = .running

/-- a timer that is still to requeue its message -/
structure Waits (t : Timer) : Prop where
  entry : openEntry t.msg.origin s.log = none
  count : hands t.msg.origin s.log ≤ t.msg.retryCount
  room : t.msg.retryCount ≤ cfg.room t.msg

/-- **the shared state** -/
structure Bounded : Prop where
  positive : s.last.less ID.zero = false
  tally : ∀ e ∈ s.exec.entries, ∀ x, e.fields = .data x → Tally cfg s e x
  records : ∀ g, s.exec.groups cfg.streams.group = some g → (g.pending.map Pending.id).Nodup
  below : ∀ g, s.exec.groups cfg.streams.group = some g → ∀ p ∈ g.pending, g.lastDelivered.less p.id = false
  chan : ∀ w m, s.jobCh w = some m → Carried cfg s m ∧ Given cfg s m
  chans : ∀ v w m n, v ≠ w → s.jobCh v = some m → s.jobCh w = some n → m.streamID ≠ n.streamID
  timers : ∀ t ∈ s.timers, t.Live → Waits cfg s t
  single : ∀ (i j : Nat) (t u : Timer), i ≠ j → s.timers[i]? = some t → s.timers[j]? = some u →
    t.Live → u.Live → t.msg.origin ≠ u.msg.origin
  counted : ∀ u, s.calls ≤ u → hands u s.log = 0

/-- what the counters of the message a thread works on bound -/
def Pc.Bound : Pc → Prop
  | .recoverCount _ m _ => Counted cfg s m
  | .dispatchGet _ m _ => Ready cfg s m
  | .dispatchReserve _ m _ => Ready cfg s m
  | .dispatchAssign _ m _ => Ready cfg s m
  | .dispatchMark _ m _ => Ready cfg s m
  | .submit _ m _ => Ready cfg s m
  | .workerBegin _ m => Given cfg s m
  | .workerStarted _ m => Given cfg s m
  | .workerHandle _ m => Given cfg s m
  | .workerSettle _ m (some _) => Given cfg s m
  | .workerClear _ m (some _) => Given cfg s m
  | .workerReport _ m (some _) => Given cfg s m
  | .workerRetry _ m _ => Given cfg s m
  | _ => True

def Pc.ids (pc : Pc) : List ID := pc.carries.map Message.streamID

def Runs (k : Nat) (m : Message) : Prop :=
  ∃ t, s.timers[k]? = some t ∧ t.state = .running ∧ t.msg.Alike m ∧ t.msg.retryCount = m.retryCount

/-- **a thread** -/
structure Tracks (pc : Pc) : Prop where
  carried : ∀ m ∈ pc.carries, Carried cfg s m
  distinct : pc.ids.Nodup
  page : ∀ e ∈ pc.page, ∀ m, e.message = some m → Counted cfg s m
  bound : pc.Bound cfg s
  chan : ∀ w m, s.jobCh w = some m → m.streamID ∉ pc.ids
  timer : ∀ k m, pc.requeues = some (k, m) → Runs s k m

end

/-- **two threads** -/
structure Apart (pc pc' : Pc) : Prop where
  ids : ∀ id ∈ pc.ids, id ∉ pc'.ids
  timers : ∀ k m l n, pc.requeues = some (k, m) → pc'.requeues = some (l, n) → k ≠ l

section
variable {cfg : Config} {s s' : State} {pc pc' : Pc} {a : Ans}

/-! ## frames -/

variable {m : Message}

theorem held_message (h : pc.held = some m) : pc.message = some m := by
  cases pc
  case workerSettle w n err | workerClear w n err | workerReport w n err => cases err <;> first | exact h | cases h
  all_goals first
    | exact h
    | cases h

theorem mem_carries : m ∈ pc.carries ↔ pc.held = some m ∨ ∃ e ∈ pc.page, e.message = some m := by
  unfold Pc.carries
  rw [mem_append, Option.mem_toList, mem_filterMap]

theorem Holds.carries (hL : Holds s pc) (hm : m ∈ pc.carries) : From s m := by
  rcases mem_carries.mp hm with hm | ⟨e, he, hm⟩
  · exact hL.message m (held_message hm)
  · exact (hL.page e he).message hm

theorem From.fresh (hG : Genuine s) (hm : From s m) : m.origin < s.calls := by
  obtain ⟨e, he, -, x, hx, hal, -⟩ := hm
  rw [← hal.origin]
  exact hG.fresh e he x hx

theorem unclaimed (hG : Genuine s) (ho : pc.Orderly cfg s a) (hm : From s m) (hgrip : gripped m.streamID s.log = true) :
    ∀ e ∈ pc.claims cfg s a, e.id ≠ m.streamID := by
  intro e he hid
  cases pc
  case recoverClaim start =>
    have hab := ho e he
    cases a with
    | fail err => cases he
    | ok now =>
      obtain ⟨y, hy, hyi, hyf, -⟩ := autoClaim_mem he
      obtain ⟨z, hz, hzi, x, hx, -⟩ := hm
      cases hG.ordered.unique hy hz (hyi.trans (hid.trans hzi.symm))
      have hmsg : e.message = some { x with streamID := e.id } := by
        unfold Entry.message
        rw [← hyf, hx]
        rfl
      unfold Abandoned at hab
      rw [hmsg, hid, hgrip] at hab
      cases hab.2
  all_goals cases he

structure Frame (cfg : Config) (s s' : State) (m : Message) : Prop where
  quiet : Quiet m.origin s s'
  carried : Carried cfg s' m
  pending : ∀ g', s'.exec.groups cfg.streams.group = some g' → ∀ p ∈ g'.pending,
    p.id = m.streamID → ∃ g, s.exec.groups cfg.streams.group = some g ∧ p ∈ g.pending

variable {id : ID}

theorem next_below (h : pc.next cfg s a = some (pc', s'))
    (hb : ∃ g, s.exec.groups cfg.streams.group = some g ∧ g.lastDelivered.less id = false) :
    ∃ g, s'.exec.groups cfg.streams.group = some g ∧ g.lastDelivered.less id = false := by
  obtain ⟨g, hg, hb⟩ := hb
  obtain ⟨g', hg', hstep⟩ := next_group h hg
  refine ⟨g', hg', ?_⟩
  cases hstep with
  | same hx | acked i hx => rw [hx]; exact hb
  | claimed hc => rw [hc.cursor]; exact hb
  | read pre post e now _ _ hab _ hx =>
    rw [hx]
    exact ID.less_asymm (ID.less_of_not_less hb hab)

variable {g' : Group}

/-- where a pending record comes from: it was there, its entry is claimed, or it is read -/
inductive Booked (cfg : Config) (s : State) (pc : Pc) (a : Ans) (g : Group) (p : Pending) : Prop
  | old (h : p ∈ g.pending)
  | claimed (q : Pending) (hq : q ∈ g.pending) (hid : q.id = p.id) (hcount : q.count ≤ p.count)
      (e : Entry Fields) (he : e ∈ pc.claims cfg s a) (heq : e.id = p.id)
  | read (h : g.lastDelivered.less p.id = true)

theorem next_booked (hG : Genuine s) (hz : s.last.less ID.zero = false) (h : pc.next cfg s a = some (pc', s'))
    (hg' : s'.exec.groups cfg.streams.group = some g') {p : Pending} (hp : p ∈ g'.pending) :
    ∃ g, s.exec.groups cfg.streams.group = some g ∧ Booked cfg s pc a g p := by
  cases hg : s.exec.groups cfg.streams.group with
  | none =>
    obtain ⟨hnil, -⟩ := next_created hG.ordered hz h hg hg'
    rw [hnil] at hp
    cases hp
  | some g =>
    refine ⟨g, rfl, ?_⟩
    obtain ⟨g0, hg0, hstep⟩ := next_group h hg
    cases hg'.symm.trans hg0
    cases hstep with
    | same hx => exact .old (hx ▸ hp)
    | claimed hc =>
      rcases hc.pending p hp with hp | ⟨q, hq, hid, hcount, e, he, heq⟩
      · exact .old hp
      · exact .claimed q hq hid.symm (by omega) e he (heq.trans hid.symm)
    | acked i hx =>
      rw [hx] at hp
      exact .old (mem_of_mem_filter hp)
    | read pre post y now _ _ hy _ hx =>
      rw [hx] at hp
      rcases mem_cons.mp hp with rfl | hp
      · exact .read hy
      · exact .old (mem_of_mem_filter hp)

/-- **A step of a thread leaves what other threads have.** -/
theorem frame (hG : Genuine s) (hB : Bounded cfg s) (hT : Tracks cfg s pc) (ho : pc.Orderly cfg s a)
    (h : pc.next cfg s a = some (pc', s')) (hm : From s m) (hc : Carried cfg s m)
    (hne : ∀ n, pc.held = some n → n.streamID ≠ m.streamID) : Frame cfg s s' m := by
  -- the thread works on another call: one entry stands for a call
  have hheld : ∀ n, pc.held = some n → n.origin ≠ m.origin := by
    intro n hn horig
    have hnc := (hT.carried n (mem_carries.mpr (.inl hn))).entry
    rw [horig, hc.entry] at hnc
    exact hne n hn (Option.some.inj hnc).symm
  have hreq : ∀ k n, pc.requeues = some (k, n) → n.origin ≠ m.origin := by
    intro k n hk horig
    obtain ⟨t, ht, hst, hal, -⟩ := hT.timer k n hk
    have hw := (hB.timers t (mem_of_getElem? ht) (.inr hst)).entry
    rw [hal.origin, horig, hc.entry] at hw
    cases hw
  have hquiet := quiet_next h (hm.fresh hG) hheld hreq
  refine ⟨hquiet, ⟨hquiet.entry.trans hc.entry, gripped_next h hne hc.grip, next_below h hc.below⟩,
    fun g' hg' p hp hid => ?_⟩
  obtain ⟨g, hg, hrec⟩ := next_booked hG hB.positive h hg' hp
  refine ⟨g, hg, ?_⟩
  cases hrec with
  | old hp => exact hp
  | claimed q _ _ _ e he heq => exact absurd (heq.trans hid) (unclaimed hG ho hm hc.grip e he)
  | read hab =>
    obtain ⟨g0, hg0, hb⟩ := hc.below
    cases hg.symm.trans hg0
    rw [hid, hb] at hab
    cases hab

theorem Counted.next (hF : Frame cfg s s' m) (hm : Counted cfg s m) : Counted cfg s' m := by
  intro g' hg' p hp hid
  obtain ⟨g, hg, hp⟩ := hF.pending g' hg' p hp hid
  rw [hF.quiet.count]
  exact hm g hg p hp hid

theorem Given.next (hF : Frame cfg s s' m) (hm : Given cfg s m) : Given cfg s' m := by
  unfold Given at *
  rw [hF.quiet.count]
  exact hm

theorem Ready.next (h : pc.next cfg s a = some (pc', s')) (hF : Frame cfg s s' m) (hm : Ready cfg s m) :
    Ready cfg s' m := by
  obtain ⟨hcount, e, he, hid, x, hx, hfit⟩ := hm
  obtain ⟨y, hy, hyi, hyf, -⟩ := next_entries h he
  refine ⟨hF.quiet.count ▸ hcount, y, hy, hyi.trans hid, x, hyf.trans hx, fun g' hg' p hp hp' => ?_⟩
  obtain ⟨g, hg, hp⟩ := hF.pending g' hg' p hp hp'
  exact hfit g hg p hp hp'

theorem bound_next {t : Pc} (h : pc.next cfg s a = some (pc', s'))
    (hF : ∀ m, t.held = some m → Frame cfg s s' m) (ht : t.Bound cfg s) : t.Bound cfg s' := by
  cases t
  case recoverCount w m k => exact Counted.next (hF m rfl) ht
  case dispatchGet w m k | dispatchReserve w m k | dispatchAssign w m k | dispatchMark w m k | submit w m k =>
    exact Ready.next h (hF m rfl) ht
  case workerSettle w m err | workerClear w m err | workerReport w m err =>
    cases err
    · trivial
    · exact Given.next (hF m rfl) ht
  case workerBegin w m | workerStarted w m | workerHandle w m | workerRetry w m _ => exact Given.next (hF m rfl) ht
  all_goals trivial

/-! ## another thread -/

theorem mem_ids : id ∈ pc.ids ↔ ∃ m ∈ pc.carries, m.streamID = id := by
  exact mem_map

theorem held_ids (h : pc.held = some m) : m.streamID ∈ pc.ids :=
  mem_ids.mpr ⟨m, mem_carries.mpr (.inl h), rfl⟩

theorem Runs.next (h : pc.next cfg s a = some (pc', s')) {k : Nat} (hk : ∀ i n, pc.requeues = some (i, n) → i ≠ k)
    (hr : Runs s k m) : Runs s' k m := by
  obtain ⟨t, ht, hst, hal, hrc⟩ := hr
  have hlt : k < s.timers.length := (List.getElem?_eq_some_iff.mp ht).1
  have hsame : s'.timers = s.timers → Runs s' k m := fun hx => ⟨t, hx ▸ ht, hst, hal, hrc⟩
  have hset : ∀ i u, i ≠ k → s'.timers = s.timers.set i u → Runs s' k m := by
    intro i u hi hx
    refine ⟨t, ?_, hst, hal, hrc⟩
    rw [hx, getElem?_set_ne hi]
    exact ht
  cases next_memory h with
  | waits w n err _ _ hx =>
    refine ⟨t, ?_, hst, hal, hrc⟩
    rw [hx, getElem?_append_left hlt]
    exact ht
  | fires i n _ hn _ hx =>
    refine hset i _ ?_ hx
    rintro rfl
    cases ht.symm.trans hn
    cases hst
  | ends i n st hpc _ hx =>
    refine hset i _ (hk i n ?_) hx
    rcases hpc with ⟨rfl, -⟩ | ⟨err, rfl, -⟩ <;> rfl
  | same _ hx | handed w n c _ _ hx | taken w n _ _ _ hx | stored j id _ _ hx | forgot j _ hx =>
    exact hsame hx

/-- **A step keeps what is known about another thread.** -/
theorem tracks_other {t : Pc} (hG : Genuine s) (hB : Bounded cfg s) (hT : Tracks cfg s pc)
    (ho : pc.Orderly cfg s a) (h : pc.next cfg s a = some (pc', s')) (hL : Holds s t)
    (ht : Tracks cfg s t) (hA : Apart pc t) : Tracks cfg s' t := by
  have hF : ∀ m ∈ t.carries, Frame cfg s s' m := by
    intro m hm
    refine frame hG hB hT ho h (hL.carries hm) (ht.carried m hm) fun n hn hid => ?_
    exact hA.ids _ (held_ids hn) (mem_ids.mpr ⟨m, hm, hid.symm⟩)
  refine ⟨fun m hm => (hF m hm).carried, ht.distinct, fun e he m hm => ?_, ?_, fun w m hw => ?_, fun k m hk => ?_⟩
  · exact (ht.page e he m hm).next (hF m (mem_carries.mpr (.inr ⟨e, he, hm⟩)))
  · exact bound_next h (fun m hm => hF m (mem_carries.mpr (.inl hm))) ht.bound
  · rcases (next_memory h).chan hw with hw | ⟨k, rfl⟩
    · exact ht.chan w m hw
    · exact hA.ids _ (held_ids rfl)
  · exact (ht.timer k m hk).next h fun i n hi => hA.timers i n k m hi hk

/-! ## entries -/

variable {e : Entry Fields} {x : Message}

section
variable (hG : Genuine s) (hz : s.last.less ID.zero = false) (h : pc.next cfg s a = some (pc', s'))
  (he : e ∈ s.exec.entries)
include hG hz h he

theorem next_above (hg' : s'.exec.groups cfg.streams.group = some g')
    (hab : g'.lastDelivered.less e.id = true) :
    ∃ g, s.exec.groups cfg.streams.group = some g ∧ g.lastDelivered.less e.id = true := by
  cases hg : s.exec.groups cfg.streams.group with
  | none =>
    obtain ⟨-, hall⟩ := next_created hG.ordered hz h hg hg'
    rw [hall e he] at hab
    cases hab
  | some g =>
    refine ⟨g, rfl, ?_⟩
    obtain ⟨g0, hg0, hstep⟩ := next_group h hg
    cases hg'.symm.trans hg0
    cases hstep with
    | same hx => exact hx ▸ hab
    | claimed hc => exact hc.cursor ▸ hab
    | acked i hx => rw [hx] at hab; exact hab
    | read pre post y now _ _ hy _ hx =>
      rw [hx] at hab
      exact ID.less_trans hy hab

theorem tally_quiet (hQ : Quiet x.origin s s') (ht : Tally cfg s e x) : Tally cfg s' e x where
  total := by
    rw [hQ.count]
    exact ht.total
  above g' hg' hab := by
    obtain ⟨g, hg, hab⟩ := next_above hG hz h he hg' hab
    rw [hQ.entry, hQ.count]
    exact ht.above g hg hab
  pending ho g' hg' p hp hid := by
    rw [hQ.entry] at ho
    rw [hQ.count]
    obtain ⟨g, hg, hrec⟩ := next_booked hG hz h hg' hp
    cases hrec with
    | old hp => exact ht.pending ho g hg p hp hid
    | claimed q hq hqid hcount =>
      have := ht.pending ho g hg q hq (hqid.trans hid)
      omega
    | read hab =>
      have := (ht.above g hg (hid ▸ hab)).2
      omega

theorem tally_settled (hn : openEntry x.origin s'.log ≠ some e.id)
    (hc : hands x.origin s'.log = hands x.origin s.log)
    (hno : ∀ g, s.exec.groups cfg.streams.group = some g → g.lastDelivered.less e.id = false) (ht : Tally cfg s e x) :
    Tally cfg s' e x where
  total := by
    rw [hc]
    exact ht.total
  above g' hg' hab := by
    obtain ⟨g, hg, hab⟩ := next_above hG hz h he hg' hab
    rw [hno g hg] at hab
    cases hab
  pending ho := absurd ho hn

end

/-- the entry is not above the cursor when that is so if it is the one that stands for its call -/
theorem Tally.passed (ht : Tally cfg s e x)
    (hopen : ∀ g, s.exec.groups cfg.streams.group = some g → openEntry x.origin s.log = some e.id →
      g.lastDelivered.less e.id = false) (g : Group) (hg : s.exec.groups cfg.streams.group = some g) :
    g.lastDelivered.less e.id = false := by
  cases hab : g.lastDelivered.less e.id with
  | false => rfl
  | true => exact hab ▸ hopen g hg (ht.above g hg hab).1

theorem From.alike_of_origin (hG : Genuine s) (hm : From s m) (he : e ∈ s.exec.entries) (hx : e.fields = .data x)
    (ho : m.origin = x.origin) : x.Alike m := by
  obtain ⟨y, hy, -, z, hz, hal, -⟩ := hm
  exact (hG.alike e he y hy x z hx hz (by rw [hal.origin, ho])).trans hal

variable {w : String}

theorem tally_handed (hG : Genuine s) {k : Cont} (hm : From s m) (hc : Carried cfg s m) (hr : Ready cfg s m)
    (h : (Pc.submit w m k).next cfg s a = some (pc', s')) (he : e ∈ s.exec.entries) (hx : e.fields = .data x)
    (ho : m.origin = x.origin)
    (hno : ∀ g, s.exec.groups cfg.streams.group = some g → g.lastDelivered.less e.id = false) : Tally cfg s' e x := by
  obtain ⟨hcount, y, hy, hyid, z, hz, hfit⟩ := hr
  have hroom : cfg.room x = cfg.room m := room_alike (hm.alike_of_origin hG he hx ho)
  have hlog : s'.log = .handed m :: s.log ∧ s'.exec = s.exec := by
    simp only [Pc.next] at h
    split at h <;> cases h
    exact ⟨rfl, rfl⟩
  have hentry : openEntry x.origin s'.log = openEntry x.origin s.log := by
    rw [hlog.1]
    exact openEntry_cons
  have hhands : hands x.origin s'.log = hands m.origin s.log + 1 := by
    rw [hlog.1, hands_cons, ← ho]
    simp [Obs.hands]
  refine ⟨by omega, fun g hg hab => ?_, fun hopen g hg p hp hid => ?_⟩
  · rw [hlog.2] at hg
    rw [hno g hg] at hab
    cases hab
  · rw [hentry, ← ho, hc.entry] at hopen
    have hsame : m.streamID = e.id := Option.some.inj hopen
    cases hG.ordered.unique hy he (hyid.trans hsame)
    cases hz.symm.trans hx
    rw [hlog.2] at hg
    have := hfit g hg p hp (hid.trans hsame.symm)
    omega

theorem tally_new (hlog : s'.log = .queued m e.id :: s.log) (hal : x.Alike m) (hrc : x.retryCount = m.retryCount)
    (hb : hands m.origin s.log ≤ min m.retryCount (cfg.room m)) : Tally cfg s' e x := by
  have hroom : cfg.room x = cfg.room m := room_alike hal
  have hhands : hands x.origin s'.log = hands m.origin s.log := by
    rw [hlog, hands_cons, hal.origin]
    rfl
  have hentry : openEntry x.origin s'.log = some e.id := by
    rw [hlog, openEntry_cons, hal.origin]
    simp [Obs.turns]
  refine ⟨by omega, fun g _ _ => ⟨hentry, by omega⟩, fun _ g _ p _ _ => by omega⟩

/-- **A step keeps the counters of an entry.** -/
theorem tally_old (hG : Genuine s) (hB : Bounded cfg s) (hL : Holds s pc) (hT : Tracks cfg s pc)
    (h : pc.next cfg s a = some (pc', s')) (he : e ∈ s.exec.entries) (hx : e.fields = .data x) :
    Tally cfg s' e x := by
  have ht := hB.tally e he x hx
  by_cases hheld : ∃ m, pc.held = some m ∧ m.origin = x.origin
  · obtain ⟨m, hm, horig⟩ := hheld
    have hc := hT.carried m (mem_carries.mpr (.inl hm))
    -- the entry of a message that somebody has is not above the cursor
    have hno := ht.passed fun g hg hopen => by
      rw [← horig, hc.entry] at hopen
      obtain ⟨g0, hg0, hb⟩ := hc.below
      cases hg.symm.trans hg0
      exact Option.some.inj hopen ▸ hb
    cases held_spoken hm h with
    | silent hq => exact tally_quiet hG hB.positive h he (hq x.origin) ht
    | settled hn hcount =>
      rw [horig] at hn hcount
      exact tally_settled hG hB.positive h he (by rw [hn]; exact nofun) hcount hno ht
    | handed w k hpc =>
      subst hpc
      exact tally_handed hG (hL.message m rfl) hc hT.bound h he hx horig hno
  · by_cases hreq : ∃ k m, pc.requeues = some (k, m) ∧ m.origin = x.origin
    · obtain ⟨k, m, hk, horig⟩ := hreq
      obtain ⟨t, htk, hst, hal, -⟩ := hT.timer k m hk
      have hnone := (hB.timers t (mem_of_getElem? htk) (.inr hst)).entry
      rw [hal.origin, horig] at hnone
      have hno := ht.passed fun g _ hopen => by cases hnone.symm.trans hopen
      rcases requeue_spoken hk h with hq | ⟨hcount, hopen⟩
      · exact tally_quiet hG hB.positive h he (hq x.origin) ht
      rw [horig] at hcount hopen
      refine tally_settled hG hB.positive h he ?_ hcount hno ht
      rcases hopen with hopen | ⟨now, hopen⟩
      · rw [hopen]
        exact nofun
      rw [hopen]
      intro heq
      have hnew := ID.less_of_not_less (hG.ordered.below e he) (nextID_less s.last now)
      rw [Option.some.inj heq, ID.less_irrefl] at hnew
      cases hnew
    · refine tally_quiet hG hB.positive h he (quiet_next h (hG.fresh e he x hx) ?_ ?_) ht
      · exact fun m hm horig => hheld ⟨m, hm, horig⟩
      · exact fun k m hk horig => hreq ⟨k, m, hk, horig⟩

/-- **The counters of every entry after a step.** -/
theorem tally_next (hG : Genuine s) (hB : Bounded cfg s) (hL : Holds s pc) (hT : Tracks cfg s pc)
    (h : pc.next cfg s a = some (pc', s')) (he : e ∈ s'.exec.entries) (hx : e.fields = .data x) :
    Tally cfg s' e x := by
  cases (next_change h).entries with
  | same hen => exact tally_old hG hB hL hT h (hen ▸ he) hx
  | queued m now hen _ hlog hsrc =>
    rw [hen] at he
    rcases mem_append.mp he with he | he
    · exact tally_old hG hB hL hT h he hx
    rw [mem_singleton.mp he] at hx ⊢
    obtain ⟨y, hy, hal, hrc⟩ := marshal_alike m
    cases hy.symm.trans hx
    refine tally_new hlog hal hrc ?_
    rcases hsrc with ⟨ho, -⟩ | ⟨k, rfl⟩
    · rw [ho, hB.counted s.calls (Nat.le_refl _)]
      exact Nat.zero_le _
    obtain ⟨t, ht, hst, hta, htr⟩ := hT.timer k m rfl
    have hw := hB.timers t (mem_of_getElem? ht) (.inr hst)
    have hroom : cfg.room t.msg = cfg.room m := room_alike hta
    have h1 := hw.count
    have h2 := hw.room
    rw [hta.origin] at h1
    omega
  | foreign now hen =>
    rw [hen] at he
    rcases mem_append.mp he with he | he
    · exact tally_old hG hB hL hT h he hx
    · rw [mem_singleton.mp he] at hx
      cases hx
  | removed id _ hen =>
    rw [hen] at he
    obtain ⟨y, hy, rfl⟩ := mem_delete.mp he
    by_cases hid : y.id = id
    · rw [if_pos hid] at hx ⊢
      have := tally_old hG hB hL hT h hy hx
      exact ⟨this.total, this.above, this.pending⟩
    · rw [if_neg hid] at hx ⊢
      exact tally_old hG hB hL hT h hy hx

/-! ## timers -/

theorem requeue_ends {k : Nat} (hm : pc.requeues = some (k, m)) (h : pc.next cfg s a = some (pc', s')) :
    (s'.timers = s.timers ∧ s'.log = s.log) ∨ ∃ t, s'.timers = s.timers.set k t ∧ ¬ t.Live := by
  cases pc
  case requeueAdd i n =>
    cases hm
    cases a <;> cases h
    · exact .inr ⟨⟨m, .requeued⟩, rfl, by simp [Timer.Live]⟩
    · exact .inl ⟨rfl, rfl⟩
  case requeueBury i n err =>
    cases hm
    cases a <;> cases h
    · exact .inr ⟨⟨m, .buried⟩, rfl, by simp [Timer.Live]⟩
    · exact .inr ⟨⟨m, .lost⟩, rfl, by simp [Timer.Live]⟩
  all_goals cases hm

variable {t : Timer} {i : Nat}

theorem next_live_timer (h : pc.next cfg s a = some (pc', s')) (ht : s'.timers[i]? = some t) (hl : t.Live) :
    (∃ t₀, s.timers[i]? = some t₀ ∧ t₀.Live ∧ t₀.msg = t.msg ∧ ((∀ n, pc.requeues ≠ some (i, n)) ∨ s'.log = s.log)) ∨
    ∃ w m err, pc = .workerRetry w m err ∧ i = s.timers.length ∧ t.msg = m.retry := by
  cases hq : pc.requeues with
  | some kn =>
    obtain ⟨k, n⟩ := kn
    rcases requeue_ends hq h with ⟨hx, hlog⟩ | ⟨u, hx, hu⟩
    · exact .inl ⟨t, hx ▸ ht, hl, rfl, .inr hlog⟩
    by_cases hk : k = i
    · subst hk
      rw [hx, getElem?_set] at ht
      simp only [if_true] at ht
      split at ht
      · cases ht
        exact absurd hl hu
      · cases ht
    · rw [hx, getElem?_set_ne hk] at ht
      refine .inl ⟨t, ht, hl, rfl, .inl fun m hm => hk ?_⟩
      cases hm
      rfl
  | none =>
    have hsame : s'.timers = s.timers → ∃ t₀, s.timers[i]? = some t₀ ∧ t₀.Live ∧ t₀.msg = t.msg ∧
        ((∀ n : Message, none ≠ some (i, n)) ∨ s'.log = s.log) :=
      fun hx => ⟨t, hx ▸ ht, hl, rfl, .inl fun n => nofun⟩
    cases next_memory h with
    | waits w m err hpc _ hx =>
      rw [hx] at ht
      by_cases hi : i < s.timers.length
      · rw [getElem?_append_left hi] at ht
        exact .inl ⟨t, ht, hl, rfl, .inl fun n => nofun⟩
      have hi' : i = s.timers.length := by
        have := (List.getElem?_eq_some_iff.mp ht).1
        simp only [length_append, length_singleton] at this
        omega
      subst hi'
      rw [getElem?_append_right (Nat.le_refl _), Nat.sub_self] at ht
      cases ht
      exact .inr ⟨w, m, err, hpc, rfl, rfl⟩
    | fires k m hpc hm _ hx =>
      by_cases hk : k = i
      · subst hk
        have hlt := (List.getElem?_eq_some_iff.mp hm).1
        rw [hx, getElem?_set_self hlt] at ht
        cases ht
        exact .inl ⟨_, hm, .inl rfl, rfl, .inl fun n => nofun⟩
      · rw [hx, getElem?_set_ne hk] at ht
        exact .inl ⟨t, ht, hl, rfl, .inl fun n => nofun⟩
    | ends k m st hpc =>
      rcases hpc with ⟨rfl, -⟩ | ⟨err, rfl, -⟩ <;> cases hq
    | same _ hx | handed w m k _ _ hx | taken w m _ _ _ hx | stored j id _ _ hx | forgot j _ hx =>
      exact .inl (hsame hx)

theorem waits_quiet {t' : Timer} (hm : t.msg = t'.msg) (hQ : Quiet t.msg.origin s s') (hw : Waits cfg s t) :
    Waits cfg s' t' := by
  refine ⟨?_, ?_, hm ▸ hw.room⟩
  · rw [← hm, hQ.entry]
    exact hw.entry
  · rw [← hm, hQ.count]
    exact hw.count

theorem waits_apart (hw : Waits cfg s t) (hc : Carried cfg s m) : m.origin ≠ t.msg.origin := by
  intro ho
  have := hc.entry
  rw [ho, hw.entry] at this
  cases this

theorem waits_retry {err : String} (hc : 0 < cfg.ceiling m) (hg : Given cfg s m)
    (h : (Pc.workerRetry w m err).next cfg s a = some (pc', s')) (hlen : s.timers.length < s'.timers.length)
    (ht : t.msg = m.retry) : Waits cfg s' t := by
  simp only [Pc.next] at h
  split at h
  · cases a <;> cases h <;> exact absurd hlen (Nat.lt_irrefl _)
  cases h
  have hroom : cfg.room m.retry = cfg.room m := rfl
  unfold Given at hg
  have hr : m.retryCount + 1 ≤ cfg.room m := by
    unfold Config.room
    omega
  refine ⟨?_, ?_, ?_⟩
  · rw [ht]
    refine openEntry_cons.trans ?_
    simp [Obs.turns, Message.retry]
  · rw [ht]
    refine hands_cons.le.trans ?_
    show hands m.origin s.log + 0 ≤ m.retryCount + 1
    omega
  · rw [ht, hroom]
    exact hr

theorem timers_next (hG : Genuine s) (hB : Bounded cfg s) (hT : Tracks cfg s pc) (hpos : 0 < cfg.maxRetries)
    (h : pc.next cfg s a = some (pc', s')) (ht : s'.timers[i]? = some t) (hl : t.Live) : Waits cfg s' t := by
  rcases next_live_timer h ht hl with ⟨t₀, ht₀, hl₀, hmsg, hother⟩ | ⟨w, m, err, rfl, rfl, hmsg⟩
  · have hmem := mem_of_getElem? ht₀
    have hw := hB.timers t₀ hmem hl₀
    refine waits_quiet hmsg ?_ hw
    rcases hother with hother | hlog
    · refine quiet_next h ((hG.timers t₀ hmem).fresh hG) (fun m hm => ?_) fun k n hk => ?_
      · exact waits_apart hw (hT.carried m (mem_carries.mpr (.inl hm)))
      obtain ⟨u, hu, hst, hal, -⟩ := hT.timer k n hk
      have hki : k ≠ i := by
        rintro rfl
        exact hother n hk
      rw [← hal.origin]
      exact hB.single k i u t₀ hki hu ht₀ (.inr hst) hl₀
    · exact quiet_of_log _ hlog
  · have hlen := (List.getElem?_eq_some_iff.mp ht).1
    exact waits_retry (Config.ceiling_pos hpos m) hT.bound h hlen hmsg

theorem single_next (hB : Bounded cfg s) (hT : Tracks cfg s pc) (h : pc.next cfg s a = some (pc', s')) {j : Nat}
    {u : Timer} (hij : i ≠ j) (ht : s'.timers[i]? = some t) (hu : s'.timers[j]? = some u) (hlt : t.Live)
    (hlu : u.Live) : t.msg.origin ≠ u.msg.origin := by
  rcases next_live_timer h ht hlt with ⟨t₀, ht₀, hl₀, hm₀, -⟩ | ⟨w, m, err, rfl, hi, hmsg⟩
  · rcases next_live_timer h hu hlu with ⟨u₀, hu₀, hv₀, hn₀, -⟩ | ⟨w, m, err, rfl, hj, hmsg⟩
    · rw [← hm₀, ← hn₀]
      exact hB.single i j t₀ u₀ hij ht₀ hu₀ hl₀ hv₀
    have hw := hB.timers t₀ (mem_of_getElem? ht₀) hl₀
    have hne := waits_apart hw (hT.carried m (mem_carries.mpr (.inl rfl)))
    rw [← hm₀, hmsg]
    exact hne.symm
  · rcases next_live_timer h hu hlu with ⟨u₀, hu₀, hv₀, hn₀, -⟩ | ⟨-, -, -, -, hj, -⟩
    · have hw := hB.timers u₀ (mem_of_getElem? hu₀) hv₀
      have hne := waits_apart hw (hT.carried m (mem_carries.mpr (.inl rfl)))
      rw [← hn₀, hmsg]
      exact hne
    · exact absurd (hi.trans hj.symm) hij

/-! ## the shared state after a step -/

theorem records_next (hG : Genuine s) (hB : Bounded cfg s) (h : pc.next cfg s a = some (pc', s'))
    (hg' : s'.exec.groups cfg.streams.group = some g') :
    (g'.pending.map Pending.id).Nodup ∧ ∀ p ∈ g'.pending, g'.lastDelivered.less p.id = false := by
  cases hg : s.exec.groups cfg.streams.group with
  | none =>
    obtain ⟨hnil, -⟩ := next_created hG.ordered hB.positive h hg hg'
    rw [hnil]
    exact ⟨nodup_nil, fun p hp => by cases hp⟩
  | some g =>
    have hn := hB.records g hg
    have hb := hB.below g hg
    obtain ⟨g0, hg0, hstep⟩ := next_group h hg
    cases hg'.symm.trans hg0
    cases hstep with
    | same hx =>
      rw [hx]
      exact ⟨hn, hb⟩
    | claimed hc =>
      refine ⟨hc.records hn, fun p hp => ?_⟩
      rw [hc.cursor]
      rcases hc.pending p hp with hp | ⟨q, hq, hid, -⟩
      · exact hb p hp
      · exact hid ▸ hb q hq
    | acked i hx =>
      rw [hx]
      exact ⟨hn.sublist (filter_sublist.map _), fun p hp => hb p (mem_of_mem_filter hp)⟩
    | read pre post e now _ _ hab _ hx =>
      rw [hx]
      refine ⟨?_, fun p hp => ?_⟩
      · refine nodup_cons.mpr ⟨fun hmem => ?_, hn.sublist (filter_sublist.map _)⟩
        obtain ⟨q, hq, hid⟩ := mem_map.mp hmem
        have := (mem_filter.mp hq).2
        simp only [decide_eq_true_eq] at this
        exact this hid
      · rcases mem_cons.mp hp with rfl | hp
        · exact ID.less_irrefl _
        · exact ID.less_asymm (ID.less_of_not_less (hb p (mem_of_mem_filter hp)) hab)

theorem chan_submit {k : Cont} (hc : Carried cfg s m) (hr : Ready cfg s m)
    (h : (Pc.submit w m k).next cfg s a = some (pc', s')) : Carried cfg s' m ∧ Given cfg s' m := by
  simp only [Pc.next] at h
  split at h <;> cases h
  refine ⟨⟨openEntry_cons.trans hc.entry, gripped_cons.trans hc.grip, hc.below⟩, ?_⟩
  have := hr.1
  refine hands_cons.le.trans ?_
  simp only [Obs.hands, decide_true, if_true]
  omega

/-- **The shared state after an orderly step.** -/
theorem bounded_next (hG : Genuine s) (hB : Bounded cfg s) (hL : Holds s pc) (hT : Tracks cfg s pc)
    (hpos : 0 < cfg.maxRetries) (ho : pc.Orderly cfg s a) (h : pc.next cfg s a = some (pc', s')) :
    Bounded cfg s' where
  positive := by
    rcases next_last h with hl | hl
    · rw [hl]
      exact hB.positive
    · exact ID.less_asymm (ID.less_of_not_less hB.positive hl)
  tally e he x hx := tally_next hG hB hL hT h he hx
  records g' hg' := (records_next hG hB h hg').1
  below g' hg' := (records_next hG hB h hg').2
  chan w m hw := by
    rcases (next_memory h).chan hw with hw | ⟨k, rfl⟩
    · obtain ⟨hc, hg⟩ := hB.chan w m hw
      have hF := frame hG hB hT ho h (hG.chan w m hw) hc fun n hn hid =>
        hT.chan w m hw (hid ▸ held_ids hn)
      exact ⟨hF.carried, hg.next hF⟩
    · exact chan_submit (hT.carried m (mem_carries.mpr (.inl rfl))) hT.bound h
  chans v w m n hvw hv hw := by
    rcases (next_memory h).chan hv with hv | ⟨k, rfl⟩
    · rcases (next_memory h).chan hw with hw | ⟨k, rfl⟩
      · exact hB.chans v w m n hvw hv hw
      · exact fun hid => hT.chan v m hv (hid ▸ held_ids rfl)
    · rcases (next_memory h).chan hw with hw | ⟨k, hpc⟩
      · exact fun hid => hT.chan w n hw (hid ▸ held_ids rfl)
      · cases hpc
        exact absurd rfl hvw
  timers t ht hl := by
    obtain ⟨i, hi⟩ := mem_iff_getElem?.mp ht
    exact timers_next hG hB hT hpos h hi hl
  single i j t u hij ht hu hlt hlu := single_next hB hT h hij ht hu hlt hlu
  counted u hu := by
    have hmono := (next_records h).1
    rw [hands_next h fun m hm ho => ?_]
    · exact hB.counted u (hmono.trans hu)
    · have := (hL.message m (held_message hm)).fresh hG
      omega

end

end Queue
