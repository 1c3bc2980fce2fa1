import Cpip.Lib.Run
import Cpip.Coord.Backend

/-!
# Coordination: leader election

The loop of an `Election` and the calls on it, over a `LeaseElector` and the in-memory backend.  A
step is one call on the backend with the update of the local flag that follows it; the clock moves
between steps, and every call on the backend may fail.

* `Holds`  the lease key names the candidate;
* `leader_exclusive`  **no other candidate holds the lease when a tick ends in leadership**.
-/

namespace Coord.Leader

open Lts Function

structure Candidate where
  scope : String
  id : String
deriving DecidableEq

inductive Loop where
  /-- between two ticks -/
  | top
  /-- `campaignTick`: the claim failed, and the key is read to confirm -/
  | confirm
  /-- `campaignTick`: the lease is not ours, and the leader is looked up -/
  | observe
  /-- the loop has ended -/
  | stopped
deriving DecidableEq

/-- the runtime of a candidate (`leader.Election`); `leaving` counts the `Resign` and `Transfer`
calls that are still to step down -/
structure Election where
  isLeader : Bool := false
  leaderID : String := ""
  loop : Loop := .top
  leaving : Nat := 0

structure Cluster where
  now : Int
  backend : Memory
  elections : Candidate → Election := fun _ => {}

inductive Reply where
  | ok
  | fail

inductive Step where
  /-- the clock moves on -/
  | advance (d : Nat)
  /-- the loop of a candidate makes its next call on the backend -/
  | tick (c : Candidate) (r : Reply)
  /-- `Election.Resign` calls the elector -/
  | resign (c : Candidate) (r : Reply)
  /-- `Election.Transfer` calls the elector -/
  | transfer (c : Candidate) (target : String) (r : Reply)
  /-- a `Resign` or `Transfer` call steps down -/
  | stepDown (c : Candidate)
  /-- the loop ends (`Election.Stop`), with a last attempt to resign -/
  | stop (c : Candidate) (r : Reply)
  /-- `Election.Start` -/
  | start (c : Candidate)

variable (e : Election)

def Election.won (id : String) : Election :=
  if e.isLeader then e else { e with isLeader := true, leaderID := id }

def Election.lost : Election :=
  if e.isLeader then { e with isLeader := false, leaderID := "" } else e

section
variable (kb : Keys) (lease : Candidate → Int)

def Candidate.key (c : Candidate) : String := kb.leaderKey c.scope

def Cluster.put (s : Cluster) (c : Candidate) (e : Election) (m : Memory) : Cluster :=
  { s with backend := m, elections := update s.elections c e }

def next (s : Cluster) : Step → Option Cluster
  | .advance d => some { s with now := s.now + d }
  | .tick c r =>
    let e := s.elections c
    match e.loop with
    | .stopped => none
    | .top =>
      if e.isLeader then
        -- renewTick
        match r with
        | .fail => some s
        | .ok =>
          match s.backend.compareAndExpire s.now (c.key kb) c.id (lease c) with
          | (true, m) => some (s.put c e m)
          | (false, m) => some (s.put c e.lost m)
      else
        -- campaignTick: Campaign claims the lease
        match r with
        | .fail => some s
        | .ok =>
          match s.backend.setNX s.now (c.key kb) c.id (lease c) with
          | (true, m) => some (s.put c (e.won c.id) m)
          | (false, m) => some (s.put c { e with loop := .confirm } m)
    | .confirm =>
      match r with
      | .fail => some (s.put c { e with loop := .top } s.backend)
      | .ok =>
        match s.backend.get s.now (c.key kb) with
        | (some cur, m) =>
          if cur = c.id then some (s.put c ({ e with loop := .top }.won c.id) m)
          else some (s.put c { e with loop := .observe } m)
        | (none, m) => some (s.put c { e with loop := .observe } m)
    | .observe =>
      match r with
      | .fail => some (s.put c { e with loop := .top } s.backend)
      | .ok =>
        match s.backend.get s.now (c.key kb) with
        | (some cur, m) => some (s.put c { e with loop := .top, leaderID := cur } m)
        | (none, m) => some (s.put c { e with loop := .top } m)
  | .resign c r =>
    let e := s.elections c
    if e.isLeader then
      match r with
      | .fail => some s
      | .ok =>
        let (_, m) := s.backend.compareAndDelete s.now (c.key kb) c.id
        some (s.put c { e with leaving := e.leaving + 1 } m)
    else some s
  | .transfer c target r =>
    let e := s.elections c
    if e.isLeader then
      match r with
      | .fail => some s
      | .ok =>
        match s.backend.compareAndSwap s.now (c.key kb) c.id target (lease c) with
        | (true, m) => some (s.put c { e with leaving := e.leaving + 1 } m)
        | (false, m) => some (s.put c e m)
    else some s
  | .stepDown c =>
    let e := s.elections c
    match e.leaving with
    | 0 => none
    | n + 1 => some (s.put c { e.lost with leaving := n } s.backend)
  | .stop c r =>
    let e := s.elections c
    match e.loop with
    | .top =>
      if e.isLeader then
        match r with
        | .fail => some (s.put c { e.lost with loop := .stopped } s.backend)
        | .ok =>
          let (_, m) := s.backend.compareAndDelete s.now (c.key kb) c.id
          some (s.put c { e.lost with loop := .stopped } m)
      else some (s.put c { e with loop := .stopped } s.backend)
    | _ => none
  | .start c =>
    let e := s.elections c
    match e.loop with
    | .stopped => some (s.put c { e with loop := .top } s.backend)
    | _ => some s

def Holds (s : Cluster) (c : Candidate) : Prop :=
  ∃ e ∈ s.backend.live s.now (c.key kb), e.value = c.id

/-- a renewal fails only while the candidate still has the lease -/
def Anchored (s : Cluster) : Step → Prop
  | .tick c .fail =>
    (s.elections c).loop = .top → (s.elections c).isLeader = true → Holds kb s c
  | _ => True

end

/-! ## the loop of a follower -/

/-- a candidate that is campaigning does not take itself for the leader -/
def Modest (s : Cluster) : Prop :=
  ∀ c, (s.elections c).loop = .confirm ∨ (s.elections c).loop = .observe → (s.elections c).isLeader = false

section
variable {kb : Keys} {lease : Candidate → Int} {s s' : Cluster} {c : Candidate}

theorem Modest.put (h : Modest s) {e : Election} {m : Memory}
    (he : e.loop = .confirm ∨ e.loop = .observe → e.isLeader = false) : Modest (s.put c e m) := by
  intro c' hc'
  by_cases hcc : c' = c
  · subst hcc
    simp only [Cluster.put, update_self] at hc' ⊢
    exact he hc'
  · simp only [Cluster.put, update_of_ne hcc] at hc' ⊢
    exact h c' hc'

theorem lost_isLeader : e.lost.isLeader = false := by
  unfold Election.lost
  by_cases h : e.isLeader = true
  · rw [if_pos h]
  · rw [if_neg h]
    exact Bool.eq_false_iff.mpr h

theorem won_loop (id : String) : (e.won id).loop = e.loop := by
  unfold Election.won
  split <;> rfl

theorem modest_next (h : Modest s) {l : Step} (hn : next kb lease s l = some s') : Modest s' := by
  cases l with
  | advance d =>
    cases hn
    exact h
  | tick c r =>
    have hc := h c
    cases hl : (s.elections c).loop with
    | stopped => simp [next, hl] at hn
    | top =>
      simp only [next, hl] at hn
      repeat' split at hn
      all_goals cases hn
      · exact h
      · exact h.put fun he => by rw [hl] at he; simp at he
      · exact h.put fun _ => lost_isLeader _
      · exact h
      · exact h.put fun he => by rw [won_loop, hl] at he; simp at he
      · exact h.put fun _ => Bool.eq_false_iff.mpr ‹_›
    | confirm =>
      have hno := hc (.inl hl)
      simp only [next, hl] at hn
      repeat' split at hn
      all_goals cases hn
      · exact h.put fun he => by simp at he
      · exact h.put fun he => by rw [won_loop] at he; simp at he
      · exact h.put fun _ => hno
      · exact h.put fun _ => hno
    | observe =>
      simp only [next, hl] at hn
      repeat' split at hn
      all_goals cases hn
      all_goals exact h.put fun he => by simp at he
  | resign c r =>
    simp only [next] at hn
    repeat' split at hn
    all_goals cases hn
    · exact h
    · exact h.put (h c)
    · exact h
  | transfer c target r =>
    simp only [next] at hn
    repeat' split at hn
    all_goals cases hn
    · exact h
    · exact h.put (h c)
    · exact h.put (h c)
    · exact h
  | stepDown c =>
    simp only [next] at hn
    split at hn
    · cases hn
    · cases hn
      exact h.put fun _ => lost_isLeader _
  | stop c r =>
    simp only [next] at hn
    repeat' split at hn
    all_goals cases hn
    all_goals exact h.put fun he => by simp at he
  | start c =>
    simp only [next] at hn
    split at hn
    · cases hn
      exact h.put fun he => by simp at he
    · cases hn
      exact h

/-! ## the end of a tick -/

theorem holds_of_live {m : Memory} {e : Election} {x : Expiry.Item String}
    (h : m.live s.now (c.key kb) = some x) (hx : x.value = c.id) : Holds kb (s.put c e m) c :=
  ⟨x, h, hx⟩

/-- **When a tick ends and the candidate takes itself for the leader, it holds the lease**, unless a
renewal failed without it. -/
theorem tick_holds (hm : Modest s) {r : Reply} (hg : Anchored kb s (.tick c r))
    (hn : next kb lease s (.tick c r) = some s') (hend : (s'.elections c).loop = .top)
    (hlead : (s'.elections c).isLeader = true) : Holds kb s' c := by
  have hself : ∀ {e m}, (s.put c e m).elections c = e := fun {e m} => update_self ..
  cases hl : (s.elections c).loop with
  | stopped => simp [next, hl] at hn
  | top =>
    by_cases hlead₀ : (s.elections c).isLeader = true
    · cases r with
      | fail =>
        simp only [next, hl, if_pos hlead₀] at hn
        cases hn
        exact hg hl hlead₀
      | ok =>
        simp only [next, hl, if_pos hlead₀] at hn
        split at hn
        · rename_i m hm
          cases hn
          rcases Memory.compareAndExpire_spec hm with ⟨x, -, -, -, rfl⟩ | ⟨hb, -⟩
          · exact holds_of_live (Memory.live_set_self ..) rfl
          · cases hb
        · cases hn
          rw [hself, lost_isLeader] at hlead
          cases hlead
    · cases r with
      | fail =>
        simp only [next, hl, if_neg hlead₀] at hn
        cases hn
        exact absurd hlead hlead₀
      | ok =>
        simp only [next, hl, if_neg hlead₀] at hn
        split at hn
        · rename_i m hm
          cases hn
          rcases Memory.setNX_spec hm with ⟨-, -, rfl⟩ | ⟨hb, -⟩
          · exact holds_of_live (Memory.live_set_self ..) rfl
          · cases hb
        · cases hn
          rw [hself] at hend
          cases hend
  | confirm =>
    have hno := hm c (.inl hl)
    cases r with
    | fail =>
      simp only [next, hl] at hn
      cases hn
      rw [hself] at hlead
      rw [hno] at hlead
      cases hlead
    | ok =>
      simp only [next, hl] at hn
      split at hn
      · rename_i cur m hget
        split at hn
        · rename_i hcur
          cases hn
          obtain ⟨hv, rfl⟩ := Prod.mk.inj hget
          obtain ⟨x, hx, rfl⟩ := Option.map_eq_some_iff.mp hv
          exact holds_of_live ((Memory.live_touch (Int.le_refl _) ..).trans hx) hcur
        · cases hn
          rw [hself] at hend
          cases hend
      · cases hn
        rw [hself] at hend
        cases hend
  | observe =>
    have hno := hm c (.inr hl)
    simp only [next, hl] at hn
    repeat' split at hn
    all_goals
      cases hn
      rw [hself] at hlead
      rw [hno] at hlead
      cases hlead

/-! ## runs -/

def start (now : Int) (m : Memory) : Cluster := { now := now, backend := m }

theorem modest_run {now : Int} {m : Memory} {ls : List Step}
    (hr : run (next kb lease) (start now m) ls = some s) : Modest s :=
  run_inv_all (fun _ _ _ hi hn => modest_next hi hn) (fun _ _ => rfl) hr

/-- **When a tick ends and the candidate takes itself for the leader, no other candidate holds the lease.** -/
theorem leader_exclusive {now : Int} {m : Memory} {ls : List Step} {r : Reply}
    (hc : Along (next kb lease) (Anchored kb) (start now m) (ls ++ [.tick c r]))
    (hr : run (next kb lease) (start now m) ls = some s)
    (hn : next kb lease s (.tick c r) = some s') (hend : (s'.elections c).loop = .top)
    (hlead : (s'.elections c).isLeader = true) {c' : Candidate} (hscope : c'.scope = c.scope)
    (hne : c'.id ≠ c.id) : ¬ Holds kb s' c' := by
  have hg : Anchored kb s (.tick c r) := (((along_append _ _ _).mp hc).2 s hr).1
  obtain ⟨x, hx, hxc⟩ := tick_holds (modest_run hr) hg hn hend hlead
  rintro ⟨y, hy, hyc⟩
  have hkey : c'.key kb = c.key kb := by
    unfold Candidate.key
    rw [hscope]
  rw [hkey, Option.mem_def.mp hx] at hy
  cases hy
  exact hne (hyc.symm.trans hxc)

end

instance (kb : Keys) (s : Cluster) (c : Candidate) : Decidable (Holds kb s c) := by
  unfold Holds
  infer_instance

instance (kb : Keys) (s : Cluster) (l : Step) : Decidable (Anchored kb s l) := by
  unfold Anchored
  split <;> infer_instance

def keys : Keys := ⟨"cpip", "main"⟩

def candA : Candidate := ⟨"scheduler", "a"⟩
def candB : Candidate := ⟨"scheduler", "b"⟩

def handover : List Step :=
  [.tick candA .ok, .advance 5, .tick candA .ok, .advance 5, .tick candA .fail,
    .transfer candA "b" .ok, .stepDown candA, .tick candB .ok]

theorem leader_exclusive_handover : ∃ s ∈ run (next keys fun _ => 10) (start 0 {}) handover,
      ∃ s' ∈ next keys (fun _ => 10) s (.tick candB .ok), (s'.elections candB).isLeader = true ∧
        ¬ Holds keys s' candA := by
  have hc : Along (next keys fun _ => 10) (Anchored keys) (start 0 {})
      (handover ++ [.tick candB .ok]) := by decide +kernel
  have hend : ∃ s ∈ run (next keys fun _ => 10) (start 0 {}) handover,
      ∃ s' ∈ next keys (fun _ => 10) s (.tick candB .ok), (s'.elections candB).loop = .top ∧
        (s'.elections candB).isLeader = true := by decide +kernel
  obtain ⟨s, hr, s', hn, htop, hlead⟩ := hend
  exact ⟨s, hr, s', hn, hlead, leader_exclusive hc hr hn htop hlead rfl (by decide)⟩

/-- **A leader whose renewals fail keeps its flag** while another candidate wins. -/
theorem deposed_leader :
    ∃ s ∈ run (next keys fun _ => 10) (start 0 {}) [.tick candA .ok, .advance 10, .tick candB .ok],
      ∃ s' ∈ next keys (fun _ => 10) s (.tick candA .fail), (s'.elections candA).loop = .top ∧
        (s'.elections candA).isLeader = true ∧ Holds keys s' candB := by
  decide +kernel

end Coord.Leader
