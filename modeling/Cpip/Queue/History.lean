import Cpip.Queue.Held
import Cpip.Queue.Cursor

/-!
# Queue: what the history says about a `Schedule` call

* `openEntry u`  the entry that stands for call `u`: the last one that was queued for it, unless its message was
  since handled, retried, rejected or written to the dead-letter stream;
* `hands u`  how often a message of call `u` was handed to a worker;
* `gripped id`  somebody has the entry: since it was last delivered, no worker dropped it and the process did
  not die;
* `quiet_next`, `gripped_next`  the history of the other calls and entries stays as it is.
-/

namespace Queue

/-! ## reading the history -/

variable (u : Nat)

/-- what the observation makes of the entry that stands for call `u` -/
def Obs.turns : Obs → Option (Option ID)
  | .queued m id => if m.origin = u then some (some id) else none
  | .handled m => if m.origin = u then some none else none
  | .retried m => if m.origin = u then some none else none
  | .dead m => if m.origin = u then some none else none
  | .rejected m => if m.origin = u then some none else none
  | _ => none

/-- the entry that stands for call `u` -/
def openEntry (log : List Obs) : Option ID := (log.findSome? (Obs.turns u)).join

def Obs.hands : Obs → Bool
  | .handed m => m.origin = u
  | _ => false

/-- how often a message of call `u` was handed to a worker -/
def hands (log : List Obs) : Nat := log.countP (Obs.hands u)

def Obs.grips (id : ID) : Obs → Option Bool
  | .delivered i => if i = id then some true else none
  | .dropped i => if i = id then some false else none
  | .crashed => some false
  | _ => none

def gripped (id : ID) (log : List Obs) : Bool := (log.findSome? (Obs.grips id)).getD false

section
variable {u : Nat} {id : ID} {o : Obs} {log : List Obs}

theorem openEntry_cons : openEntry u (o :: log) = ((o.turns u).getD (openEntry u log)) := by
  unfold openEntry
  rw [List.findSome?_cons]
  cases o.turns u <;> rfl

theorem hands_cons : hands u (o :: log) = hands u log + if o.hands u then 1 else 0 := by
  unfold hands
  rw [List.countP_cons]

theorem gripped_cons : gripped id (o :: log) = (o.grips id).getD (gripped id log) := by
  unfold gripped
  rw [List.findSome?_cons]
  cases o.grips id <;> rfl

variable {l : List Obs}

theorem hands_append (h : ∀ o ∈ l, o.hands u = false) : hands u (l ++ log) = hands u log := by
  unfold hands
  rw [List.countP_append, List.countP_eq_zero.mpr fun o ho => by simp [h o ho], Nat.zero_add]

theorem silent_append (hs : ∀ o ∈ l, o.turns u = none ∧ o.hands u = false) :
    openEntry u (l ++ log) = openEntry u log ∧ hands u (l ++ log) = hands u log := by
  refine ⟨?_, hands_append fun o ho => (hs o ho).2⟩
  unfold openEntry
  rw [List.findSome?_append, List.findSome?_eq_none_iff.mpr fun o ho => (hs o ho).1]
  rfl

end

/-! ## what a thread works on -/

def Entry.message (e : Entry Fields) : Option Message := unmarshal e.id e.fields

/-- the message a thread works on, and those of the entries it still has to go through -/
def Pc.carries (pc : Pc) : List Message := pc.held.toList ++ pc.page.filterMap Entry.message

section
variable {cfg : Config} {s s' : State} {pc pc' : Pc} {a : Ans}

/-- the history of call `u` stays as it is -/
structure Quiet (u : Nat) (s s' : State) : Prop where
  entry : openEntry u s'.log = openEntry u s.log
  count : hands u s'.log = hands u s.log

/-- **A step leaves the history of every call that its thread does not work on.** -/
theorem quiet_next (h : pc.next cfg s a = some (pc', s')) {u : Nat} (hu : u < s.calls)
    (hheld : ∀ m, pc.held = some m → m.origin ≠ u)
    (hreq : ∀ k m, pc.requeues = some (k, m) → m.origin ≠ u) : Quiet u s s' := by
  obtain ⟨-, l, hl, hspeaks⟩ := next_records h
  have hsilent : ∀ o ∈ l, o.turns u = none ∧ o.hands u = false := by
    intro o ho
    have hsp := (hspeaks o ho).2
    cases o with
    | queued m id =>
      refine ⟨if_neg ?_, rfl⟩
      rcases hsp with hm | ⟨k, hm⟩
      · omega
      · exact hreq k m hm
    | handed m => exact ⟨rfl, decide_eq_false (hheld m hsp)⟩
    | handled m | retried m | rejected m => exact ⟨if_neg (hheld m hsp), rfl⟩
    | dead m =>
      refine ⟨if_neg ?_, rfl⟩
      rcases hsp with hm | ⟨k, hm⟩
      · exact hheld m hm
      · exact hreq k m hm
    | _ => exact ⟨rfl, rfl⟩
  obtain ⟨he, hc⟩ := silent_append hsilent
  exact ⟨hl ▸ he, hl ▸ hc⟩

theorem quiet_of_log (hl : s'.log = s.log) : Quiet u s s' :=
  ⟨by rw [hl], by rw [hl]⟩

theorem hands_next (h : pc.next cfg s a = some (pc', s')) {u : Nat}
    (hheld : ∀ m, pc.held = some m → m.origin ≠ u) : hands u s'.log = hands u s.log := by
  obtain ⟨-, l, hl, hspeaks⟩ := next_records h
  rw [hl]
  refine hands_append fun o ho => ?_
  cases o with
  | handed m => exact decide_eq_false (hheld m (hspeaks _ ho).2)
  | _ => rfl

inductive Spoken (m : Message) (pc : Pc) (s s' : State) : Prop
  | silent (hq : ∀ u, Quiet u s s')
  | handed (w : String) (k : Cont) (hpc : pc = .submit w m k) (hlog : s'.log = .handed m :: s.log)
  | settled (hentry : openEntry m.origin s'.log = none) (hcount : hands m.origin s'.log = hands m.origin s.log)

/-- **A thread hands its message out, settles it, or says nothing about its call.** -/
theorem held_spoken {m : Message} (hm : pc.held = some m)
    (h : pc.next cfg s a = some (pc', s')) : Spoken m pc s s' := by
  have hsame : s'.log = s.log → Spoken m pc s s' := fun hl => .silent fun u => quiet_of_log u hl
  have hsettle : ∀ o, s'.log = o :: s.log → o.turns m.origin = some none →
      o.hands m.origin = false → Spoken m pc s s' := by
    intro o hl ht hh
    refine .settled ?_ ?_
    · rw [hl, openEntry_cons, ht]
      rfl
    · rw [hl, hands_cons, hh]
      rfl
  cases pc
  case submit w n k =>
    cases hm
    simp only [Pc.next] at h
    split at h <;> cases h
    exact .handed w k rfl rfl
  case workerBegin w n =>
    cases hm
    simp only [Pc.next] at h
    split at h <;> cases h
    · exact hsame rfl
    refine .silent fun u => ⟨?_, ?_⟩
    · exact openEntry_cons
    · exact hands_cons
  case rollbackJob w n k =>
    cases hm
    cases h
    refine hsettle (.rejected m) (congrArg (Obs.rejected m :: ·) (tryWorkers_log _)) ?_ rfl
    simp [Obs.turns]
  case workerSettle w n err | workerClear w n err =>
    cases err <;> cases hm
    cases h
    exact hsame (tryWorkers_log _)
  case workerReport w n err =>
    cases err <;> cases hm
    cases h
    exact hsame (tryMark_log ..)
  all_goals try cases hm
  all_goals cases a
  all_goals simp only [Pc.next, reject, State.bury] at h
  all_goals repeat' split at h
  all_goals cases h
  all_goals first
    | exact hsame rfl
    | exact hsettle _ rfl (if_pos rfl) rfl
    | exact hsame (tryWorkers_log _)
    | exact hsame (tryMark_log ..)

theorem requeue_spoken {k : Nat} {m : Message} (hm : pc.requeues = some (k, m))
    (h : pc.next cfg s a = some (pc', s')) : (∀ u, Quiet u s s') ∨
      hands m.origin s'.log = hands m.origin s.log ∧ (openEntry m.origin s'.log = none ∨
        ∃ now, openEntry m.origin s'.log = some (nextID s.last now)) := by
  cases pc
  case requeueAdd i n =>
    cases hm
    cases a with
    | ok now =>
      cases h
      refine .inr ⟨hands_cons, .inr ⟨now, openEntry_cons.trans ?_⟩⟩
      simp [Obs.turns]
    | fail err =>
      cases h
      exact .inl fun u => quiet_of_log u rfl
  case requeueBury i n err =>
    cases hm
    cases a with
    | ok now =>
      cases h
      refine .inr ⟨hands_cons, .inl (openEntry_cons.trans ?_)⟩
      simp [Obs.turns]
    | fail err =>
      cases h
      exact .inl fun u => quiet_of_log u rfl
  all_goals cases hm

theorem gripped_next (h : pc.next cfg s a = some (pc', s')) {id : ID}
    (hheld : ∀ m, pc.held = some m → m.streamID ≠ id) (hg : gripped id s.log = true) : gripped id s'.log = true := by
  obtain ⟨-, l, hl, hspeaks⟩ := next_records h
  rw [hl]
  clear hl h
  induction l with
  | nil => exact hg
  | cons o l ih =>
    have ih := ih fun o' ho' => hspeaks o' (List.mem_cons_of_mem _ ho')
    have hsp := (hspeaks o (List.mem_cons_self ..)).2
    rw [List.cons_append, gripped_cons]
    cases o with
    | delivered i =>
      by_cases hi : i = id
      · simp [Obs.grips, hi]
      · simp [Obs.grips, hi, ih]
    | dropped i =>
      obtain ⟨m, hm, hmi⟩ := hsp
      have hne : i ≠ id := hmi ▸ hheld m hm
      simp [Obs.grips, hne, ih]
    | crashed => exact hsp.elim
    | _ => exact ih

end

end Queue
