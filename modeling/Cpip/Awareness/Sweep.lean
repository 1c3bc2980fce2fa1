import Cpip.Awareness.Manager
import Cpip.Lib.Pool

/-!
# Awareness: the liveness sweep among other calls

`runSweep` interleaved with `Heartbeat`, `UpdateCursor`, `UpdateSelection`, `UpdateTyping` and `RecoverSession`.  A
step is what one call does under the lock of the registry, or its reading of the clock.

* `Calm`  no call refreshes a connection that a sweep has read and not yet handled;
* `Effect`  what one step can do to the registry;
* `sweep_sound`  **every step of a calm run is justified**.

Both loops of the sweep act on copies, so a refresh between the read and the act is lost, see `sweep_overtaken`.
-/

namespace Awareness

open Pool Registry Lts
open Function (update update_apply update_of_ne update_self)

inductive Mutation where
  | heartbeat
  | updateCursor (line ch : Int) (color filePath : String) (visible : Bool)
  | updateSelection (anchorLine anchorCh focusLine focusCh : Int)
  | updateTyping (isTyping : Bool)

def Mutation.fn (now : Int) : Mutation → Presence → Presence × Except Err (Option String)
  | .heartbeat => heartbeatFn now
  | .updateCursor line ch color filePath visible => cursorFn now line ch color filePath visible
  | .updateSelection anchorLine anchorCh focusLine focusCh => selectionFn now anchorLine anchorCh focusLine focusCh
  | .updateTyping isTyping => typingFn now isTyping

inductive Task where
  | mutate (connID : String) (f : Mutation)
  | recoverSession (userID token newConnID : String)
  | runSweep

inductive Pc where
  | mutate (connID : String) (f : Mutation)
  | mutateAt (connID : String) (f : Mutation) (now : Int)
  | recover (userID token newConnID : String)
  | recoverList (userID token newConnID : String) (now : Int)
  | recoverEvict (target : Presence) (newConnID : String) (now : Int)
  | recoverRegister (target : Presence) (newConnID : String) (now : Int)
  | sweep
  | listOnline (now : Int)
  | listIdle (now : Int) (found : List Presence)
  | listAway (now : Int) (found : List Presence)
  | sweeping (now : Int) (todo : List Presence)
  | evicting (now : Int) (todo : List Presence)
  | done

structure Shared where
  reg : Registry
  clock : Int

structure Choice where
  elapsed : Nat := 0
  order : List Presence := []

def Task.start : Task → Pc
  | .mutate connID f => .mutate connID f
  | .recoverSession userID token newConnID => .recover userID token newConnID
  | .runSweep => .sweep

def Pc.act (cfg : Config) (reg : Registry) (clock : Int) (order : List Presence) : Pc → Option (Pc × Registry)
  | .mutate connID f => some (.mutateAt connID f clock, reg)
  | .mutateAt connID f now => some (.done, (reg.mutate connID (f.fn now)).1)
  | .recover userID token newConnID => some (.recoverList userID token newConnID clock, reg)
  | .recoverList userID token newConnID now =>
    if order.Perm (reg.listByUser userID) then
      match order.find? fun p => p.reconnectToken = token with
      | none => some (.done, reg)
      | some target =>
        match validateRecovery cfg target token now with
        | .error _ => some (.done, reg)
        | .ok () => some (.recoverEvict target newConnID now, reg)
    else none
  | .recoverEvict target newConnID now => some (.recoverRegister target newConnID now, reg.deregister target.connID)
  | .recoverRegister target newConnID now =>
    match reg.register
      { target with connID := newConnID, state := .online, lastHeartbeat := now, lastActivity := now } with
    | .error _ => some (.done, reg)
    | .ok reg' => some (.done, reg')
  | .sweep => some (.listOnline clock, reg)
  | .listOnline now => some (.listIdle now (reg.listByState .online), reg)
  | .listIdle now found => some (.listAway now (found ++ reg.listByState .idle), reg)
  | .listAway now found => some (.sweeping now (found ++ reg.listByState .away), reg)
  | .sweeping now (p :: todo) =>
    if isDead cfg p.lastHeartbeat now then
      match reg.updateState p.connID .disconnected with
      | .ok reg' => some (.sweeping now todo, reg')
      | .error _ => some (.sweeping now todo, reg)
    else some (.sweeping now todo, (reg.mutate p.connID (sweepFn cfg now)).1)
  | .sweeping now [] => some (.evicting now (reg.listByState .disconnected), reg)
  | .evicting now (p :: todo) =>
    if cfg.recoveryTimeout ≤ now - p.lastSeen then some (.evicting now todo, reg.deregister p.connID)
    else some (.evicting now todo, reg)
  | .evicting _ [] => some (.done, reg)
  | .done => none

/-- the calls over the registry; the clock does not go back -/
def prog (cfg : Config) : Prog Task Shared Pc Choice where
  start := Task.start
  step t s a :=
    (t.act cfg s.reg (s.clock + a.elapsed) a.order).map fun r => (r.1, ⟨r.2, s.clock + a.elapsed⟩)

/-! ## what a sweep may do -/

def Pc.sweepTime : Pc → Option Int
  | .listOnline now | .listIdle now _ | .listAway now _ | .sweeping now _ | .evicting now _ => some now
  | _ => none

/-- the step disconnects only what is dead, and evicts only what was not heard from within the recovery timeout -/
structure Justified (cfg : Config) (now clock : Int) (reg reg' : Registry) : Prop where
  move : ∀ c p p', reg.get c = some p → reg'.get c = some p' → p.state ≠ .disconnected → p'.state = .disconnected →
    cfg.heartbeatTimeout < now - p.lastHeartbeat
  evict : ∀ c p, reg.get c = some p → reg'.get c = none →
    p.state = .disconnected ∧ cfg.recoveryTimeout ≤ now - p.lastSeen ∧ cfg.recoveryTimeout ≤ clock - p.lastSeen

def Pc.refreshes : Pc → Option String
  | .mutateAt connID _ _ => some connID
  | .recoverRegister _ newConnID _ => some newConnID
  | _ => none

def Pc.copies : Pc → List Presence
  | .listIdle _ found | .listAway _ found => found
  | .sweeping _ todo | .evicting _ todo => todo
  | _ => []

/-- a connection is refreshed only when no sweep has still to handle a copy of its presence -/
def Calm (sys : Sys Shared Pc) : Act Task Choice → Prop
  | .spawn _ _ => True
  | .step i _ => ∀ t ∈ sys.pool i, ∀ c ∈ t.refreshes, ∀ j u, sys.pool j = some u → ∀ p ∈ u.copies, p.connID ≠ c

/-! ## what one step can do -/

/-- the presence was heard from no later, and a disconnected one stays disconnected -/
structure Quiet (p q : Presence) : Prop where
  heartbeat : q.lastHeartbeat = p.lastHeartbeat
  activity : q.lastActivity = p.lastActivity
  state : p.state = .disconnected → q.state = .disconnected

theorem quiet_refl (p : Presence) : Quiet p p := ⟨rfl, rfl, id⟩

variable {p q : Presence}

theorem quiet_trans {r : Presence} (h : Quiet p q) (h' : Quiet q r) : Quiet p r :=
  ⟨h'.heartbeat.trans h.heartbeat, h'.activity.trans h.activity, fun hs => h'.state (h.state hs)⟩

theorem quiet_lastSeen (h : Quiet p q) : q.lastSeen = p.lastSeen := by
  unfold Presence.lastSeen
  rw [h.heartbeat, h.activity]

variable {now : Int} {cfg : Config}

theorem sweepState_disconnected : sweepState cfg now p = .disconnected ↔ p.state = .disconnected := by
  obtain hsame | ⟨hold, hnew⟩ := sweepState_cases now p cfg
  · rw [hsame]
  constructor
  · intro h
    rw [h] at hnew
    obtain h' | h' := hnew <;> cases h'
  · intro h
    rw [h] at hold
    obtain h' | h' := hold <;> cases h'

theorem quiet_sweepFn (cfg : Config) (now : Int) (p : Presence) : Quiet p (sweepFn cfg now p).1 :=
  ⟨rfl, rfl, fun h => sweepState_disconnected.mpr h⟩

theorem sameKeys_fn (f : Mutation) (now : Int) (p : Presence) : Registry.SameKeys p (f.fn now p).1 := by
  cases f with
  | heartbeat => exact (alters_heartbeatFn now p).keys
  | updateCursor line ch color filePath visible => exact (alters_cursorFn now p line ch color filePath visible).keys
  | updateSelection anchorLine anchorCh focusLine focusCh =>
    exact (alters_selectionFn now p anchorLine anchorCh focusLine focusCh).keys
  | updateTyping isTyping => exact (alters_typingFn now p isTyping).keys

/-- what a step of `t` can do to a connection -/
def Effect (t : Pc) (reg reg' : Registry) : Prop :=
  ∀ c, t.refreshes = some c ∨ reg'.get c = reg.get c ∨ reg'.get c = none ∨
    ∃ p q, reg.get c = some p ∧ reg'.get c = some q ∧ Quiet p q

section
variable {t : Pc} {reg reg' : Registry} {k : String}

theorem effect_rfl : Effect t reg reg := fun _ => .inr (.inl rfl)

theorem effect_refresh {x : Option Presence} (ht : t.refreshes = some k)
    (h : reg'.get = update reg.get k x) : Effect t reg reg' := by
  intro c
  by_cases hc : c = k
  · exact .inl (hc ▸ ht)
  · rw [h, update_of_ne hc]
    exact .inr (.inl rfl)

theorem effect_remove (k : String) : Effect t reg (reg.deregister k) := by
  intro c
  rw [get_deregister, update_apply]
  split
  · exact .inr (.inr (.inl rfl))
  · exact .inr (.inl rfl)

theorem effect_quiet (hp : reg.get k = some p) (h : reg'.get = update reg.get k (some q)) (hq : Quiet p q) :
    Effect t reg reg' := by
  intro c
  rw [h]
  by_cases hc : c = k
  · rw [hc, update_self]
    exact .inr (.inr (.inr ⟨p, q, hp, rfl, hq⟩))
  · rw [update_of_ne hc]
    exact .inr (.inl rfl)

end

/-- one step from `t` to `t'` -/
structure Moved (t t' : Pc) (reg reg' : Registry) (clock : Int) : Prop where
  effect : Effect t reg reg'
  sound : reg.Sound → reg'.Sound
  /-- a copy was there before, or has just been made -/
  copies : ∀ p ∈ t'.copies, t.refreshes = none ∧ p ∈ t.copies ∨ reg' = reg ∧ ∃ c, reg.get c = some p
  evicts : ∀ now todo, t' = .evicting now todo → ∀ p ∈ todo, p.state = .disconnected ∨ ∃ l, t = .evicting now l ∧ p ∈ l
  time : ∀ now ∈ t'.sweepTime, now ∈ t.sweepTime ∨ now = clock

section
variable {cfg : Config} {t t' : Pc} {reg reg' : Registry} {clock : Int} {order : List Presence}

theorem moved_plain (he : Effect t reg reg') (hs : reg.Sound → reg'.Sound) (hc : t'.copies = [])
    (ht : t'.sweepTime = none) : Moved t t' reg reg' clock := by
  refine ⟨he, hs, fun p hp => ?_, fun now todo heq => ?_, fun now hn => ?_⟩
  · rw [hc] at hp
    cases hp
  · subst heq
    cases ht
  · rw [ht] at hn
    cases hn

theorem moved_list {found : List Presence} {s : State} (hc : t'.copies = found ++ reg.listByState s)
    (hfound : ∀ p ∈ found, p ∈ t.copies) (ht : t.refreshes = none)
    (hevict : ∀ now todo, t' = .evicting now todo → ∀ p ∈ todo, p.state = .disconnected)
    (htime : t'.sweepTime = t.sweepTime) : Moved t t' reg reg clock := by
  refine ⟨effect_rfl, id, fun p hp => ?_, fun now todo heq p hp => .inl (hevict now todo heq p hp), fun now hn => ?_⟩
  · rw [hc] at hp
    obtain hp | hp := List.mem_append.mp hp
    · exact .inl ⟨ht, hfound p hp⟩
    · exact .inr ⟨rfl, (mem_listByState.mp hp).2⟩
  · exact .inl (htime ▸ hn)

theorem moved_list_first {s : State} (hc : t'.copies = reg.listByState s) (ht : t.refreshes = none)
    (hevict : ∀ now todo, t' = .evicting now todo → ∀ p ∈ todo, p.state = .disconnected)
    (htime : t'.sweepTime = t.sweepTime) : Moved t t' reg reg clock :=
  moved_list (hc.trans (List.nil_append _).symm) (fun _ hp => (by cases hp)) ht hevict htime

theorem moved_next {todo : List Presence} (he : Effect t reg reg') (hs : reg.Sound → reg'.Sound)
    (hc : t.copies = p :: todo) (hc' : t'.copies = todo) (ht : t.refreshes = none)
    (hevict : ∀ now todo', t' = .evicting now todo' → t = .evicting now (p :: todo'))
    (htime : t'.sweepTime = t.sweepTime) : Moved t t' reg reg' clock := by
  refine ⟨he, hs, fun q hq => .inl ⟨ht, ?_⟩, fun now todo' heq q hq => .inr ⟨p :: todo', hevict now todo' heq, ?_⟩,
    fun now hn => .inl (htime ▸ hn)⟩
  · rw [hc, ← hc']
    exact List.mem_cons_of_mem _ hq
  · exact List.mem_cons_of_mem _ hq

/-- **what one step does** -/
theorem act_moved (h : t.act cfg reg clock order = some (t', reg')) : Moved t t' reg reg' clock := by
  cases t with
  | mutate connID f | recover userID token newConnID =>
    cases h
    exact moved_plain effect_rfl id rfl rfl
  | mutateAt connID f now =>
    cases h
    refine moved_plain ?_ (fun hs => sound_mutate hs (sameKeys_fn f now)) rfl rfl
    cases hp : reg.get connID with
    | none =>
      rw [mutate_none hp]
      exact effect_rfl
    | some p => exact effect_refresh rfl (get_mutate hp)
  | recoverList userID token newConnID now =>
    unfold Pc.act at h
    dsimp only at h
    repeat' split at h
    all_goals cases h
    all_goals exact moved_plain effect_rfl id rfl rfl
  | recoverEvict target newConnID now =>
    cases h
    exact moved_plain (effect_remove _) (fun hs => sound_deregister hs _) rfl rfl
  | recoverRegister target newConnID now =>
    unfold Pc.act at h
    dsimp only at h
    split at h
    · cases h
      exact moved_plain effect_rfl id rfl rfl
    next hr =>
    cases h
    exact moved_plain (effect_refresh rfl (get_register hr)) (fun hs => sound_register hs hr) rfl rfl
  | sweep =>
    cases h
    refine ⟨effect_rfl, id, fun p hp => (by cases hp), fun now todo heq => (by cases heq), fun now hn => .inr ?_⟩
    exact (Option.some_inj.mp hn).symm
  | listOnline now =>
    cases h
    exact moved_list_first rfl rfl (fun now todo heq => (by cases heq)) rfl
  | listIdle now found | listAway now found =>
    cases h
    exact moved_list rfl (fun p hp => hp) rfl (fun now todo heq => (by cases heq)) rfl
  | sweeping now todo =>
    cases todo with
    | nil =>
      cases h
      refine moved_list_first rfl rfl (fun now todo heq p hp => ?_) rfl
      cases heq
      exact (mem_listByState.mp hp).1
    | cons p todo =>
      unfold Pc.act at h
      dsimp only at h
      split at h
      · split at h
        · next hu =>
          cases h
          obtain ⟨q, hq, _, heq⟩ := updateState_ok hu
          have hget := get_stored (congrArg presences heq)
          exact moved_next (effect_quiet hq hget ⟨rfl, rfl, fun _ => rfl⟩) (fun hs => sound_updateState hs hu)
            rfl rfl rfl (fun now todo' heq => (by cases heq)) rfl
        · cases h
          exact moved_next effect_rfl id rfl rfl rfl (fun now todo' heq => (by cases heq)) rfl
      · cases h
        refine moved_next ?_ (fun hs => sound_mutate hs fun p => (alters_sweepFn now p cfg).keys) rfl rfl rfl
          (fun now todo' heq => (by cases heq)) rfl
        cases hq : reg.get p.connID with
        | none =>
          rw [mutate_none hq]
          exact effect_rfl
        | some q => exact effect_quiet hq (get_mutate hq) (quiet_sweepFn cfg now q)
  | evicting now todo =>
    cases todo with
    | nil =>
      cases h
      exact moved_plain effect_rfl id rfl rfl
    | cons p todo =>
      unfold Pc.act at h
      dsimp only at h
      split at h
      · cases h
        refine moved_next (effect_remove _) (fun hs => sound_deregister hs _) rfl rfl rfl (fun now todo' heq => ?_) rfl
        cases heq
        rfl
      · cases h
        refine moved_next effect_rfl id rfl rfl rfl (fun now todo' heq => ?_) rfl
        cases heq
        rfl
  | done => cases h

end

/-! ## the invariant -/

structure Held (s : Shared) (t : Pc) : Prop where
  fresh : ∀ p ∈ t.copies, ∀ q, s.reg.get p.connID = some q → Quiet p q
  evicts : ∀ now todo, t = .evicting now todo → ∀ p ∈ todo, p.state = .disconnected
  time : ∀ now ∈ t.sweepTime, now ≤ s.clock

theorem held_start (s : Shared) (c : Task) : Held s c.start := by
  cases c with
  | mutate connID f | recoverSession userID token newConnID =>
    exact ⟨fun p hp => (by cases hp), fun now todo heq => (by cases heq), fun now hn => (by cases hn)⟩
  | runSweep => exact ⟨fun p hp => (by cases hp), fun now todo heq => (by cases heq), fun now hn => (by cases hn)⟩

theorem fresh_effect {t : Pc} {reg reg' : Registry} (he : Effect t reg reg') (hne : t.refreshes ≠ some p.connID)
    (h : ∀ q, reg.get p.connID = some q → Quiet p q) (hq : reg'.get p.connID = some q) : Quiet p q := by
  obtain hr | hsame | hnone | ⟨p', q', hp', hq', hquiet⟩ := he p.connID
  · exact absurd hr hne
  · exact h q (hsame ▸ hq)
  · cases hnone.symm.trans hq
  · cases hq'.symm.trans hq
    exact quiet_trans (h p' hp') hquiet

abbrev SweepInv : Sys Shared Pc → Prop := Inv (fun s => s.reg.Sound) Held fun _ _ _ => True

theorem sweepInv_next (sys : Sys Shared Pc) (l : Act Task Choice) (sys' : Sys Shared Pc)
    (hi : SweepInv sys) (hC : Calm sys l) (hn : (prog cfg).next sys l = some sys') : SweepInv sys' := by
  refine inv_next (C := Calm) ⟨fun s i c _ _ => ⟨held_start s.shared c, fun _ _ _ => ⟨trivial, trivial⟩⟩,
    fun s i a t t' m hi hC hp hs => ?_⟩ sys l sys' hi hC hn
  obtain ⟨⟨u', reg'⟩, hact, heq⟩ := Option.map_eq_some_iff.mp hs
  cases heq
  have hmoved := act_moved hact
  have hclock : s.shared.clock ≤ s.shared.clock + a.elapsed := by omega
  refine keeps_each (hmoved.sound hi.shared) ⟨fun p hpc q hq => ?_, fun now todo heq p hpt => ?_, fun now hnow => ?_⟩
    fun j u hj hu => ⟨fun p hpc q hq => ?_, (hi.each j u hu).evicts, fun now hnow => ?_⟩
  · obtain ⟨hnone, hold⟩ | ⟨hsame, c, hc⟩ := hmoved.copies p hpc
    · refine fresh_effect hmoved.effect ?_ ((hi.each i t hp).fresh p hold) hq
      rw [hnone]
      exact (Option.some_ne_none _).symm
    · change reg'.get p.connID = some q at hq
      rw [hsame, hi.shared.keyed c p hc] at hq
      cases hc.symm.trans hq
      exact quiet_refl p
  · obtain hdone | ⟨l, rfl, hl⟩ := hmoved.evicts now todo heq p hpt
    · exact hdone
    · exact (hi.each i _ hp).evicts now l rfl p hl
  · obtain hold | rfl := hmoved.time now hnow
    · exact Int.le_trans ((hi.each i t hp).time now hold) hclock
    · exact Int.le_refl _
  · refine fresh_effect hmoved.effect (fun hr => ?_) ((hi.each j u hu).fresh p hpc) hq
    exact hC t hp _ hr j u hu p hpc rfl
  · exact Int.le_trans ((hi.each j u hu).time now hnow) hclock

/-! ## the steps of a sweep -/

variable {clock : Int}

theorem justified_same (reg : Registry) : Justified cfg now clock reg reg := by
  refine ⟨fun c p p' hp hp' hne hs => ?_, fun c p hp hn => ?_⟩
  · cases hp.symm.trans hp'
    exact absurd hs hne
  · cases hp.symm.trans hn

theorem justified_update {reg reg' : Registry} {k : String} (hp : reg.get k = some p)
    (hget : reg'.get = update reg.get k (some q))
    (h : p.state ≠ .disconnected → q.state = .disconnected → cfg.heartbeatTimeout < now - p.lastHeartbeat) :
    Justified cfg now clock reg reg' := by
  refine ⟨fun c p₀ q₀ hp₀ hq₀ hne hs => ?_, fun c p₀ hp₀ hn => ?_⟩
  · rw [hget] at hq₀
    rw [update_apply] at hq₀
    split at hq₀
    · next hc =>
      cases hq₀
      cases hp.symm.trans (hc ▸ hp₀)
      exact h hne hs
    · cases hp₀.symm.trans hq₀
      exact absurd hs hne
  · rw [hget, update_apply] at hn
    split at hn
    · cases hn
    · cases hp₀.symm.trans hn

theorem justified_deregister {reg : Registry} {k : String} (hclock : now ≤ clock)
    (h : ∀ q, reg.get k = some q → q.state = .disconnected ∧ cfg.recoveryTimeout ≤ now - q.lastSeen) :
    Justified cfg now clock reg (reg.deregister k) := by
  refine ⟨fun c p₀ q₀ hp₀ hq₀ hne hs => ?_, fun c p₀ hp₀ hn => ?_⟩
  · rw [get_deregister, update_apply] at hq₀
    split at hq₀
    · cases hq₀
    cases hp₀.symm.trans hq₀
    exact absurd hs hne
  · rw [get_deregister] at hn
    by_cases hc : c = k
    · subst hc
      obtain ⟨hs, hseen⟩ := h p₀ hp₀
      refine ⟨hs, hseen, ?_⟩
      omega
    · rw [update_of_ne hc] at hn
      cases hp₀.symm.trans hn

theorem justified_act {s : Shared} {t t' : Pc} {reg' : Registry} {order : List Presence}
    (hH : Held s t) (hclock : s.clock ≤ clock) (h : t.act cfg s.reg clock order = some (t', reg'))
    (hnow : t.sweepTime = some now) : Justified cfg now clock s.reg reg' := by
  cases t with
  | mutate _ _ | mutateAt _ _ _ | recover _ _ _ | recoverList _ _ _ _ | recoverEvict _ _ _ | recoverRegister _ _ _
    | sweep
  | done => cases hnow
  | listOnline _ | listIdle _ _ | listAway _ _ =>
    cases h
    exact justified_same _
  | sweeping now' todo =>
    cases hnow
    cases todo with
    | nil =>
      cases h
      exact justified_same _
    | cons p todo =>
      have hfresh := hH.fresh p List.mem_cons_self
      unfold Pc.act at h
      dsimp only at h
      split at h
      · next hdead =>
        split at h
        · next hu =>
          cases h
          obtain ⟨q, hq, _, heq⟩ := updateState_ok hu
          refine justified_update hq (get_stored (congrArg presences heq)) fun _ _ => ?_
          rw [(hfresh q hq).heartbeat]
          exact (of_decide_eq_true hdead).2
        · cases h
          exact justified_same _
      · cases h
        cases hq : s.reg.get p.connID with
        | none =>
          rw [mutate_none hq]
          exact justified_same _
        | some q =>
          refine justified_update hq (get_mutate hq) fun hne hs => ?_
          exact absurd (sweepState_disconnected.mp hs) hne
  | evicting now' todo =>
    cases hnow
    cases todo with
    | nil =>
      cases h
      exact justified_same _
    | cons p todo =>
      have hfresh := hH.fresh p List.mem_cons_self
      unfold Pc.act at h
      dsimp only at h
      split at h
      · next hseen =>
        cases h
        refine justified_deregister (Int.le_trans (hH.time now rfl) hclock) fun q hq => ?_
        refine ⟨(hfresh q hq).state (hH.evicts now _ rfl p List.mem_cons_self), ?_⟩
        rw [quiet_lastSeen (hfresh q hq)]
        exact hseen
      · cases h
        exact justified_same _

def Sane (cfg : Config) (sys : Sys Shared Pc) (l : Act Task Choice) : Prop :=
  ∀ i a t now sys', l = .step i a → sys.pool i = some t → t.sweepTime = some now → (prog cfg).next sys l = some sys' →
    Justified cfg now sys'.shared.clock sys.shared.reg sys'.shared.reg

/-- **A sweep takes only what is dead or silent**, when no call refreshes what it has read and has still to handle. -/
theorem sweep_sound {cfg : Config} {reg : Registry} (hreg : reg.Sound) (clock : Int) {acts : List (Act Task Choice)}
    (hC : Along (prog cfg).next Calm (idle ⟨reg, clock⟩) acts) :
    Along (prog cfg).next (Sane cfg) (idle ⟨reg, clock⟩) acts := by
  have hinv : Along (prog cfg).next (fun sys _ => SweepInv sys) (idle ⟨reg, clock⟩) acts :=
    along_inv sweepInv_next (inv_idle hreg) hC
  refine along_mono (fun sys l hi => ?_) _ _ hinv
  rintro i a t now sys' rfl hp hnow hn
  obtain ⟨u, u', m, hu, hs, rfl⟩ := next_step hn
  cases hp.symm.trans hu
  obtain ⟨⟨v, reg'⟩, hact, heq⟩ := Option.map_eq_some_iff.mp hs
  cases heq
  exact justified_act (hi.each i t hp) (by show sys.shared.clock ≤ sys.shared.clock + a.elapsed; omega) hact hnow

def silent (state : State) : Presence :=
  { userID := "u1", connID := "c1", roomID := "A", state, lastHeartbeat := 1, lastActivity := 1,
    reconnectToken := "t1" }

def silentReg (state : State) : Registry := index {} (silent state)

theorem sound_silentReg (state : State) : (silentReg state).Sound := by
  have hr : ({} : Registry).register (silent state) = .ok (silentReg state) := rfl
  exact sound_register sound_empty hr

def lateSweep : List (Act Task Choice) :=
  [.spawn 0 .runSweep, .step 0 { elapsed := 30000000000 }, .step 0 {}, .step 0 {}, .step 0 {}]

def calmRun : List (Act Task Choice) :=
  [.spawn 1 (.mutate "c1" .heartbeat), .step 1 { elapsed := 1 }, .step 1 {}] ++ lateSweep ++
    [.step 0 {}, .step 0 {}, .step 0 {}, .spawn 2 (.mutate "c1" .heartbeat), .step 2 {}, .step 2 {}]

theorem sweep_sound_calmRun : (∃ sys ∈ run (prog .default).next (idle ⟨silentReg .online, 1⟩) calmRun,
      ∃ p ∈ sys.shared.reg.get "c1", p.state = .disconnected) ∧
    Along (prog .default).next (Sane .default) (idle ⟨silentReg .online, 1⟩) calmRun := by
  have hC : Along (prog .default).next Calm (idle ⟨silentReg .online, 1⟩) calmRun :=
    along_pairs (n := 3) (D := fun _ _ t _ u => ∀ c ∈ t.refreshes, ∀ p ∈ u.copies, p.connID ≠ c)
      (fun _ _ _ => trivial) (fun _ _ _ h t ht c hc j u hu => h t j u ht hu c hc) (by decide) (by decide +kernel)
  exact ⟨by decide +kernel, sweep_sound (sound_silentReg .online) 1 hC⟩

/-- the same sweep, and a heartbeat between its last list and its act -/
def overtakenRun : List (Act Task Choice) :=
  lateSweep ++ [.spawn 1 (.mutate "c1" .heartbeat), .step 1 {}, .step 1 {}]

/-- a sweep that evicts a user, and the user's recovery under the same connection between its list and its act -/
def recoveryRun : List (Act Task Choice) :=
  [.spawn 1 (.recoverSession "u1" "t1" "c1"), .step 1 {}, .step 1 { order := [silent .disconnected] },
   .spawn 0 .runSweep, .step 0 { elapsed := 61000000000 }, .step 0 {}, .step 0 {}, .step 0 {}, .step 0 {}, .step 1 {},
   .step 1 {}]

/-- **the next step of the sweep** disconnects a user who has just been heard from, and evicts a user who is online -/
theorem sweep_overtaken : (∃ sys ∈ run (prog .default).next (idle ⟨silentReg .online, 1⟩) overtakenRun,
      ∃ sys' ∈ (prog .default).next sys (.step 0 {}), ∃ p ∈ sys.shared.reg.get "c1", ∃ p' ∈ sys'.shared.reg.get "c1",
        p.state = .online ∧ p'.state = .disconnected ∧ (sys.pool 0).bind Pc.sweepTime = some p.lastHeartbeat) ∧
    ∃ sys ∈ run (prog .default).next (idle ⟨silentReg .disconnected, 1⟩) recoveryRun,
      ∃ sys' ∈ (prog .default).next sys (.step 0 {}), ∃ p ∈ sys.shared.reg.get "c1",
        p.state = .online ∧ sys'.shared.reg.get "c1" = none := by
  constructor
  · decide +kernel
  · decide +kernel

end Awareness
