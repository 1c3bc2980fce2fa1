import Cpip.Lib.Pool
import Cpip.Coord.Registry

/-!
# Coordination: concurrent mutations of a node

`Registry.Mutate` as a thread: the read of the cache (and of the backend on a miss), the mutator, the
write to the backend, the entry in the roster and the commit to the cache are steps of their own.

* `updates_kept`  **the record has the effect of every call that has returned**.
-/

namespace Coord.Registry

open Pool Lts
open Function (update update_of_ne update_self)

/-! ## mutators -/

inductive Field where
  | heartbeat
  | load
  | status
  | health
deriving DecidableEq

/-- the records agree in the field; a heartbeat comes with the time the node was seen and the counters -/
def Field.Same : Field → Node → Node → Prop
  | .heartbeat, n, m => n.heartbeat = m.heartbeat ∧ n.lastSeen = m.lastSeen ∧ n.stats = m.stats
  | .load, n, m => n.load = m.load
  | .status, n, m => n.status = m.status
  | .health, n, m => n.health = m.health

theorem Field.Same.refl (g : Field) (n : Node) : g.Same n n := by
  cases g
  case heartbeat => exact ⟨rfl, rfl, rfl⟩
  all_goals exact rfl

theorem Field.Same.trans {g : Field} {n m k : Node} (h : g.Same n m) (h' : g.Same m k) : g.Same n k := by
  cases g
  case heartbeat => exact ⟨h.1.trans h'.1, h.2.1.trans h'.2.1, h.2.2.trans h'.2.2⟩
  all_goals exact Eq.trans h h'

theorem Field.Same.stamped {g : Field} {n m : Node} (h : g.Same n m) (now : Int) : g.Same (n.stamped now) m := by
  cases g <;> exact h

structure Mutator where
  fields : Finset Field
  fn : Node → Node
  keeps : ∀ n, (fn n).id = n.id
  frame : ∀ g ∉ fields, ∀ n, g.Same (fn n) n
  reads : ∀ n m, (∀ g ∈ fields, g.Same n m) → ∀ g ∈ fields, g.Same (fn n) (fn m)

def Mutator.report (l : Load) : Mutator where
  fields := {.load}
  fn := Node.reported l
  keeps _ := rfl
  frame g hg n := by
    cases g
    case load => exact absurd (Finset.mem_singleton_self _) hg
    case heartbeat => exact ⟨rfl, rfl, rfl⟩
    all_goals rfl
  reads n m _ g hg := by
    cases Finset.mem_singleton.mp hg
    rfl

def Mutator.assess (h : Health) : Mutator where
  fields := {.health}
  fn := Node.assessed h
  keeps _ := rfl
  frame g hg n := by
    cases g
    case health => exact absurd (Finset.mem_singleton_self _) hg
    case heartbeat => exact ⟨rfl, rfl, rfl⟩
    all_goals rfl
  reads n m _ g hg := by
    cases Finset.mem_singleton.mp hg
    rfl

theorem beat_eq (now : Int) (n : Node) : n.beat now = { n with
      heartbeat := now, lastSeen := now
      stats := { n.stats with heartbeatsSent := n.stats.heartbeatsSent + 1 }
      status := if n.status = .suspect then .active else n.status
      health := if n.status = .suspect ∨ n.status = .active then .healthy else n.health } := by
  unfold Node.beat
  cases n.status <;> simp

def Mutator.beat (now : Int) : Mutator where
  fields := {.heartbeat, .status, .health}
  fn := Node.beat now
  keeps n := by rw [beat_eq]
  frame g hg n := by
    cases g
    case load =>
      rw [beat_eq]
      rfl
    all_goals exact absurd (by simp) hg
  reads n m h g hg := by
    obtain ⟨h1, h2, h3⟩ := h .heartbeat (by simp)
    have h4 : n.status = m.status := h .status (by simp)
    have h5 : n.health = m.health := h .health (by simp)
    rw [beat_eq, beat_eq, h3, h4, h5]
    cases g
    case load => simp at hg
    case heartbeat => exact ⟨rfl, rfl, rfl⟩
    all_goals rfl

def Mutator.suspect : Mutator where
  fields := {.heartbeat, .status, .health}
  fn := Node.suspected
  keeps n := by
    unfold Node.suspected
    split <;> rfl
  frame g hg n := by
    cases g
    case load =>
      unfold Node.suspected
      split <;> rfl
    all_goals exact absurd (by simp) hg
  reads n m h g hg := by
    obtain ⟨h1, h2, h3⟩ := h .heartbeat (by simp)
    have h4 : n.status = m.status := h .status (by simp)
    have h5 : n.health = m.health := h .health (by simp)
    unfold Node.suspected
    rw [h4]
    cases g
    case load => simp at hg
    case heartbeat =>
      split
      · exact ⟨h1, h2, by simp only [h3]⟩
      · exact ⟨h1, h2, h3⟩
    case status =>
      split
      · rfl
      · exact h4
    case health =>
      split
      · rfl
      · exact h5

/-! ## calls -/

structure Call where
  p : Nat
  m : Mutator

inductive Pc where
  | read (c : Call)
  | fetch (c : Call)
  | fill (c : Call) (n : Node)
  | apply (c : Call) (cur : Node)
  | set (c : Call) (cur : Node) (now : Int)
  | add (c : Call) (cur : Node) (now : Int)
  | commit (c : Call) (cur : Node) (now : Int)
  | finished (c : Call)
  | failed (c : Call) (wrote : Bool)

inductive Reply where
  | ok (now : Int)
  | fail

def Call.record (c : Call) (cur : Node) (now : Int) : Node := (c.m.fn cur).stamped now

def Cluster.committed (s : Cluster) (p : Nat) (n : Node) : Option Cluster :=
  match s.caches[p]? with
  | none => none
  | some c => some { s with caches := s.caches.set p (Registry.commit c n) }

variable (id : String)

def Pc.next (s : Cluster) : Pc → Reply → Option (Pc × Cluster)
  -- Get
  | .read c, _ =>
    match s.caches[c.p]? with
    | none => none
    | some cache =>
      match cache.lookup id with
      | some n => some (.apply c n, s)
      | none => some (.fetch c, s)
  | .fetch c, .fail => some (.failed c false, s)
  | .fetch c, .ok _ =>
    match s.shared.records.lookup id with
    | none => some (.failed c false, s)
    | some n => some (.fill c n, s)
  | .fill c n, _ => (s.committed c.p n).map fun s => (.apply c n, s)
  -- the mutator and the time stamp
  | .apply c cur, .ok now =>
    if (c.record cur now).id = "" then some (.failed c false, s) else some (.set c cur now, s)
  | .apply _ _, .fail => none
  -- Put
  | .set c _ _, .fail => some (.failed c false, s)
  | .set c cur now, .ok _ =>
    let n := c.record cur now
    some (.add c cur now, { s with shared := { s.shared with records := s.shared.records.insert n.id n } })
  | .add c _ _, .fail => some (.failed c true, s)
  | .add c cur now, .ok _ =>
    let n := c.record cur now
    some (.commit c cur now, { s with shared := { s.shared with members := insert n.id s.shared.members } })
  | .commit c cur now, _ => (s.committed c.p (c.record cur now)).map fun s => (.finished c, s)
  | .finished _, _ => none
  | .failed _ _, _ => none

/-- **the calls of `Mutate` on one node as threads** -/
def mutators : Prog Call Cluster Pc Reply := ⟨Pc.read, fun pc s a => pc.next id s a⟩

def Pc.call : Pc → Call
  | .read c | .fetch c | .fill c _ | .apply c _ | .set c _ _ | .add c _ _ | .commit c _ _ | .finished c
  | .failed c _ => c

def Pc.wrote : Pc → Bool
  | .add _ _ _ | .commit _ _ _ | .finished _ => true
  | .failed _ w => w
  | _ => false

/-! ## the condition -/

/-- the write of a call that still finds the record it has read -/
def Pc.Finds (s : Cluster) : Pc → Prop
  | .set _ cur _ => s.shared.records.lookup id = some cur
  | _ => True

/-- calls of disjoint fields are started, and a call writes only while the backend has the record it has
read -/
def Orderly (s : Sys Cluster Pc) : Act Call Reply → Prop
  | .spawn _ c => ∀ j t, s.pool j = some t → Disjoint c.m.fields t.call.m.fields
  | .step i (.ok _) => ∀ pc ∈ s.pool i, pc.Finds id s.shared
  | .step _ .fail => True

/-! ## what a step does -/

section
variable {id : String} {s s' : Cluster} {pc pc' : Pc} {a : Reply}

theorem committed_shared {p : Nat} {n : Node} (h : s.committed p n = some s') : s'.shared = s.shared := by
  unfold Cluster.committed at h
  split at h
  · cases h
  · cases h
    rfl

/-- **A step leaves the records, or it is the write of a call.** -/
theorem next_record (h : pc.next id s a = some (pc', s')) : pc'.call = pc.call ∧
      (s'.shared.records = s.shared.records ∧ pc'.wrote = pc.wrote ∨
        ∃ c cur now t, pc = .set c cur now ∧ a = .ok t ∧ pc'.wrote = true ∧
          s'.shared.records = s.shared.records.insert (c.record cur now).id (c.record cur now)) := by
  cases pc
  case read c =>
    simp only [Pc.next] at h
    split at h
    · cases h
    split at h <;> cases h
    · exact ⟨rfl, .inl ⟨rfl, rfl⟩⟩
    · exact ⟨rfl, .inl ⟨rfl, rfl⟩⟩
  case fetch c =>
    cases a with
    | fail =>
      cases h
      exact ⟨rfl, .inl ⟨rfl, rfl⟩⟩
    | ok now =>
      simp only [Pc.next] at h
      split at h <;> cases h
      · exact ⟨rfl, .inl ⟨rfl, rfl⟩⟩
      · exact ⟨rfl, .inl ⟨rfl, rfl⟩⟩
  case fill c n | commit c cur now =>
    obtain ⟨s₁, hs, heq⟩ := Option.map_eq_some_iff.mp h
    cases heq
    exact ⟨rfl, .inl ⟨congrArg Shared.records (committed_shared hs), rfl⟩⟩
  case apply c cur =>
    cases a with
    | fail => cases h
    | ok now =>
      simp only [Pc.next] at h
      split at h <;> cases h
      · exact ⟨rfl, .inl ⟨rfl, rfl⟩⟩
      · exact ⟨rfl, .inl ⟨rfl, rfl⟩⟩
  case set c cur now =>
    cases a with
    | fail =>
      cases h
      exact ⟨rfl, .inl ⟨rfl, rfl⟩⟩
    | ok t =>
      cases h
      exact ⟨rfl, .inr ⟨c, cur, now, t, rfl, rfl, rfl, rfl⟩⟩
  case add c cur now =>
    cases a <;> cases h
    · exact ⟨rfl, .inl ⟨rfl, rfl⟩⟩
    · exact ⟨rfl, .inl ⟨rfl, rfl⟩⟩
  case finished c | failed c w => cases h

end

/-! ## effects -/

def Apart (s : Sys Cluster Pc) : Prop :=
  ∀ i j t u, i ≠ j → s.pool i = some t → s.pool j = some u → Disjoint t.call.m.fields u.call.m.fields

/-- the field is as the call left it that has written it, or as it was when no call has -/
def Kept (r₀ r : Node) (s : Sys Cluster Pc) (g : Field) : Prop :=
  (∀ i t, s.pool i = some t → g ∈ t.call.m.fields → t.wrote = true → g.Same r (t.call.m.fn r₀)) ∧
    ((∀ i t, s.pool i = some t → g ∈ t.call.m.fields → t.wrote = false) → g.Same r r₀)

/-- **the invariant** -/
structure Sums (id : String) (r₀ : Node) (s : Sys Cluster Pc) : Prop where
  keyed : Keyed s.shared.shared
  apart : Apart s
  kept : ∃ r, s.shared.shared.records.lookup id = some r ∧ ∀ g, Kept r₀ r s g

section
variable {id : String} {r₀ : Node} {s : Sys Cluster Pc} {i : Nat}

theorem sums_spawn {c : Call} (h : Sums id r₀ s) (hc : Orderly id s (.spawn i c)) (hi : s.pool i = none) :
    Sums id r₀ ⟨s.shared, update s.pool i (some (.read c))⟩ := by
  have hold : ∀ j t, s.pool j = some t → update s.pool i (some (Pc.read c)) j = some t := by
    intro j t ht
    have hj : j ≠ i := by
      rintro rfl
      cases hi.symm.trans ht
    rw [update_of_ne hj]
    exact ht
  obtain ⟨r, hr, hkept⟩ := h.kept
  refine ⟨h.keyed, fun j k t u hjk ht hu => ?_, r, hr, fun g => ⟨fun j t ht hg hw => ?_, fun hno => ?_⟩⟩
  · rcases update_cases ht with ⟨rfl, rfl⟩ | ⟨hj, ht'⟩
    · rcases update_cases hu with ⟨rfl, rfl⟩ | ⟨hk, hu'⟩
      · exact absurd rfl hjk
      · exact hc k u hu'
    · rcases update_cases hu with ⟨rfl, rfl⟩ | ⟨hk, hu'⟩
      · exact (hc j t ht').symm
      · exact h.apart j k t u hjk ht' hu'
  · rcases update_cases ht with ⟨rfl, rfl⟩ | ⟨-, ht⟩
    · cases hw
    · exact (hkept g).1 j t ht hg hw
  · exact (hkept g).2 fun j t ht hg => hno j t (hold j t ht) hg

/-- what becomes of a field when thread `i` makes a step that leaves the record, or writes it -/
theorem sums_step {a : Reply} {pc pc' : Pc} {m : Cluster} (h : Sums id r₀ s) (hp : s.pool i = some pc)
    (hc : Orderly id s (.step i a)) (hn : pc.next id s.shared a = some (pc', m)) :
    Sums id r₀ ⟨m, update s.pool i (some pc')⟩ := by
  obtain ⟨hcall, heff⟩ := next_record hn
  obtain ⟨r, hr, hkept⟩ := h.kept
  have hself : update s.pool i (some pc') i = some pc' := update_self ..
  have hother : ∀ j, j ≠ i → update s.pool i (some pc') j = s.pool j :=
    fun j hj => update_of_ne hj ..
  have hapart : Apart ⟨m, update s.pool i (some pc')⟩ := by
    intro j k t u hjk ht hu
    rcases update_cases ht with ⟨rfl, rfl⟩ | ⟨hj, ht'⟩
    · rcases update_cases hu with ⟨rfl, rfl⟩ | ⟨hk, hu'⟩
      · exact absurd rfl hjk
      · rw [hcall]
        exact h.apart j k pc u hjk hp hu'
    · rcases update_cases hu with ⟨rfl, rfl⟩ | ⟨hk, hu'⟩
      · rw [hcall]
        exact h.apart j k t pc hjk ht' hp
      · exact h.apart j k t u hjk ht' hu'
  rcases heff with ⟨hrec, hw⟩ | ⟨c, cur, now, t₀, rfl, rfl, hw, hrec⟩
  · refine ⟨fun j n hj => ?_, hapart, r, ?_, fun g => ⟨fun j t ht hg hwt => ?_, fun hno => ?_⟩⟩
    · dsimp only at hj
      rw [hrec] at hj
      exact h.keyed j n hj
    · dsimp only
      rw [hrec]
      exact hr
    · rcases update_cases ht with ⟨rfl, rfl⟩ | ⟨-, ht⟩
      · rw [hcall] at hg ⊢
        exact (hkept g).1 j pc hp hg (hw ▸ hwt)
      · exact (hkept g).1 j t ht hg hwt
    · refine (hkept g).2 fun j t ht hg => ?_
      by_cases hj : j = i
      · subst hj
        cases hp.symm.trans ht
        rw [← hw]
        exact hno j pc' hself (hcall ▸ hg)
      · exact hno j t ((hother j hj).trans ht) hg
  · -- the write: the backend still has the record that was read
    have hcur : s.shared.shared.records.lookup id = some cur := hc _ hp
    cases hr.symm.trans hcur
    have hid : (c.record r now).id = id := (c.m.keeps r).trans (h.keyed id r hr)
    rw [hid] at hrec
    change pc'.call = c at hcall
    refine ⟨fun j n hj => ?_, hapart, c.record r now, ?_, fun g => ?_⟩
    · dsimp only at hj
      rw [hrec] at hj
      by_cases hjd : j = id
      · rw [hjd, AList.lookup_insert] at hj
        cases hj
        exact hid.trans hjd.symm
      · rw [AList.lookup_insert_ne hjd] at hj
        exact h.keyed j n hj
    · dsimp only
      rw [hrec]
      exact AList.lookup_insert ..
    · by_cases hg : g ∈ c.m.fields
      · -- only this call touches the field, and it has not written yet
        have halone : ∀ g' ∈ c.m.fields, ∀ j t, s.pool j = some t → g' ∈ t.call.m.fields → j = i := by
          intro g' hg' j t ht hgt
          by_contra hj
          exact Finset.disjoint_left.mp (h.apart j i t _ hj ht hp) hgt hg'
        have huntouched : ∀ g' ∈ c.m.fields, g'.Same r r₀ := by
          intro g' hg'
          refine (hkept g').2 fun j t ht hgt => ?_
          cases halone g' hg' j t ht hgt
          cases hp.symm.trans ht
          rfl
        have heffect : g.Same (c.record r now) (c.m.fn r₀) := (c.m.reads r r₀ huntouched g hg).stamped now
        refine ⟨fun j t ht hgt _ => ?_, fun hno => ?_⟩
        · rcases update_cases ht with ⟨rfl, rfl⟩ | ⟨hj, ht⟩
          · rw [hcall]
            exact heffect
          · exact absurd (halone g hg j t ht hgt) hj
        · have hfalse := hno i pc' hself (hcall ▸ hg)
          rw [hw] at hfalse
          cases hfalse
      · have hframe : g.Same (c.record r now) r := (c.m.frame g hg r).stamped now
        refine ⟨fun j t ht hgt hwt => ?_, fun hno => ?_⟩
        · rcases update_cases ht with ⟨rfl, rfl⟩ | ⟨hj, ht⟩
          · exact absurd (hcall ▸ hgt) hg
          · exact hframe.trans ((hkept g).1 j t ht hgt hwt)
        · refine hframe.trans ((hkept g).2 fun j t ht hgt => ?_)
          by_cases hj : j = i
          · subst hj
            cases hp.symm.trans ht
            exact absurd hgt hg
          · exact hno j t ((hother j hj).trans ht) hgt

end

/-- **Along every orderly run of mutators of disjoint fields the record of the backend has the effect of every call
that has returned.** -/
theorem updates_kept {id : String} {s : Cluster} (hk : Keyed s.shared) {r₀ : Node}
    (h0 : s.shared.records.lookup id = some r₀) {as : List (Act Call Reply)}
    (hC : Along (mutators id).next (Orderly id) (idle s) as) {sys : Sys Cluster Pc}
    (hr : run (mutators id).next (idle s) as = some sys) : ∃ r, sys.shared.shared.records.lookup id = some r ∧
      ∀ i c, sys.pool i = some (.finished c) → ∀ g ∈ c.m.fields, g.Same r (c.m.fn r₀) := by
  have hinit : Sums id r₀ (idle s) := by
    refine ⟨hk, fun i j t u _ ht => ?_, r₀, h0, fun g => ⟨fun i t ht => ?_, fun _ => .refl g r₀⟩⟩
    · cases ht
    · cases ht
  have hend : Sums id r₀ sys := by
    refine run_inv (fun s l s' hi hc hn => ?_) hinit hC hr
    cases l with
    | spawn i c =>
      obtain ⟨hi', rfl⟩ := next_spawn hn
      exact sums_spawn hi hc hi'
    | step i a =>
      obtain ⟨t, t', m, hp, hs, rfl⟩ := next_step hn
      exact sums_step hi hp hc hs
  obtain ⟨r, hrec, hkept⟩ := hend.kept
  exact ⟨r, hrec, fun i c hi g hg => (hkept g).1 i _ hi hg rfl⟩

/-! ## runs -/

instance (id : String) (s : Cluster) (pc : Pc) : Decidable (pc.Finds id s) := by
  unfold Pc.Finds
  split <;> infer_instance

/-- the action is orderly as far as the calls below `n` go -/
def OrderlyBelow (n : Nat) (s : Sys Cluster Pc) : Act Call Reply → Prop
  | .spawn _ c => ∀ j < n, ∀ t ∈ s.pool j, Disjoint c.m.fields t.call.m.fields
  | .step i (.ok _) => ∀ pc ∈ s.pool i, pc.Finds id s.shared
  | .step _ .fail => True

instance (id : String) (n : Nat) (s : Sys Cluster Pc) (l : Act Call Reply) : Decidable (OrderlyBelow id n s l) := by
  unfold OrderlyBelow
  split <;> infer_instance

theorem OrderlyBelow.orderly {id : String} {n : Nat} {s : Sys Cluster Pc} {l : Act Call Reply}
    (h : OrderlyBelow id n s l) (hn : ∀ i t, s.pool i = some t → i < n) : Orderly id s l := by
  cases l with
  | spawn i c => exact fun j t hj => h j (hn j t hj) t hj
  | step i a =>
    cases a with
    | ok now => exact h
    | fail => trivial

def steps (i n : Nat) (now : Int) : List (Act Call Reply) := List.replicate n (.step i (.ok now))

def settledNode : Node := { id := "a", status := .active, health := .healthy }

def settled : Cluster := ⟨⟨AList.singleton "a" settledNode, {"a"}⟩, [∅, ∅]⟩

theorem settled_keyed : Keyed settled.shared := by
  intro j n hn
  by_cases hj : j = "a"
  · subst hj
    cases hn
    rfl
  · have hnone : settled.shared.records.lookup j = none :=
      AList.lookup_eq_none.mpr fun hmem => hj (List.mem_singleton.mp hmem)
    rw [hnone] at hn
    cases hn

def Pc.returnedNil : Pc → Bool
  | .finished _ => true
  | _ => false

def orderlyRun : List (Act Call Reply) :=
  [.spawn 0 ⟨0, .beat 5⟩, .spawn 1 ⟨1, .report { activeJobs := 3 }⟩] ++ steps 0 5 5 ++ steps 1 2 6 ++ steps 0 1 7 ++
    steps 1 3 7 ++ steps 0 1 8 ++ steps 1 2 8

theorem updates_kept_orderlyRun :
    Keyed settled.shared ∧ Along (mutators "a").next (Orderly "a") (idle settled) orderlyRun ∧
      ∃ sys ∈ run (mutators "a").next (idle settled) orderlyRun,
        ((∃ t ∈ sys.pool 0, t.returnedNil = true) ∧ ∃ t ∈ sys.pool 1, t.returnedNil = true) ∧
        ∃ r, sys.shared.shared.records.lookup "a" = some r ∧
          ∀ i c, sys.pool i = some (.finished c) → ∀ g ∈ c.m.fields, g.Same r (c.m.fn settledNode) := by
  have hend : ∃ sys ∈ run (mutators "a").next (idle settled) orderlyRun,
      (∃ t ∈ sys.pool 0, t.returnedNil = true) ∧ ∃ t ∈ sys.pool 1, t.returnedNil = true := by
    decide +kernel
  obtain ⟨sys, hr, hret⟩ := hend
  refine ⟨settled_keyed, ?hC, sys, hr, hret, updates_kept settled_keyed rfl ?hC hr⟩
  have hb : Along (mutators "a").next (OrderlyBelow "a" 2) (idle settled) orderlyRun := by
    decide +kernel
  have hbelow : ∀ l ∈ orderlyRun, l.below 2 := by decide
  have hn := along_below (P := mutators "a") settled hbelow
  exact along_mono (fun s l h => h.1.orderly h.2) _ _ (along_and hb hn)

/-- an assessment and a load report both read the record before either has written it -/
def lostRun : List (Act Call Reply) :=
  [.spawn 0 ⟨0, .assess .degraded⟩, .spawn 1 ⟨0, .report { activeJobs := 3 }⟩] ++ steps 0 4 1 ++ steps 1 2 2 ++
    steps 0 3 3 ++ steps 1 3 4

/-- **The second write undoes the first**: both calls have returned, and the health that the first one set
is gone. -/
theorem lost_update : ∃ sys ∈ run (mutators "a").next (idle settled) lostRun,
      (∃ t ∈ sys.pool 0, t.returnedNil = true) ∧ (∃ t ∈ sys.pool 1, t.returnedNil = true) ∧
      ∃ r ∈ sys.shared.shared.records.lookup "a", r.load.activeJobs = 3 ∧ r.health = .healthy := by
  decide +kernel

end Coord.Registry
