import Mathlib.Data.Finset.Card
import Cpip.Lib.Expiry

/-!
# Coordination: keys and the in-memory backend

Times and durations are nanoseconds.  Publishing and subscribing are left out here.
-/

namespace Coord

open Expiry

/-! ## keys -/

structure Keys where
  base : String
  clusterID : String

variable (b : Keys)

def Keys.root (parts : List String) : String :=
  ":".intercalate ([b.base, b.clusterID] ++ parts)

def Keys.leaderKey (scope : String) : String := b.root ["leader", scope]

/-! ## backend -/

structure Memory where
  kv : Store String String := ∅
  sets : AList fun _ : String => Finset String := ∅

namespace Memory

variable (m : Memory) (now : Int) (key : String)

def live : Option (Item String) := Expiry.live m.kv now key

def touch : Memory := { m with kv := evict m.kv now key }

def get : Option String × Memory :=
  ((m.live now key).map Item.value, m.touch now key)

def set (key value : String) (ttl : Int) : Memory :=
  { m with kv := m.kv.insert key ⟨value, due now ttl⟩ }

def setNX (key value : String) (ttl : Int) : Bool × Memory :=
  match m.live now key with
  | some _ => (false, m)
  | none => (true, m.set now key value ttl)

def deleteOne (r : Nat × Memory) (key : String) : Nat × Memory :=
  match r.2.live now key with
  | some _ => (r.1 + 1, { r.2 with kv := r.2.kv.erase key })
  | none => (r.1, r.2.touch now key)

def delete (keys : List String) : Nat × Memory :=
  keys.foldl (deleteOne now) (0, m)

def expire (ttl : Int) : Bool × Memory :=
  match m.live now key with
  | some e => (true, { m with kv := m.kv.insert key { e with expireAt := due now ttl } })
  | none => (false, m.touch now key)

def ttl : Int × Memory :=
  match m.live now key with
  | none => (-2000000000, m.touch now key)
  | some e =>
    match e.expireAt with
    | none => (-1000000000, m)
    | some t => (t - now, m)

def compareAndSwap (key expected newValue : String) (ttl : Int) : Bool × Memory :=
  match m.live now key with
  | none => if expected ≠ "" then (false, m.touch now key) else (true, m.set now key newValue ttl)
  | some e => if e.value ≠ expected then (false, m) else (true, m.set now key newValue ttl)

def compareAndDelete (key expected : String) : Bool × Memory :=
  match m.live now key with
  | none => (false, m.touch now key)
  | some e => if e.value ≠ expected then (false, m) else (true, { m with kv := m.kv.erase key })

def compareAndExpire (key expected : String) (ttl : Int) : Bool × Memory :=
  match m.live now key with
  | none => (false, m.touch now key)
  | some e =>
    if e.value ≠ expected then (false, m)
    else (true, { m with kv := m.kv.insert key { e with expireAt := due now ttl } })

def members : Finset String := (m.sets.lookup key).getD ∅

def sAdd (mems : List String) : Nat × Memory :=
  let s := m.members key
  let s' := s ∪ mems.toFinset
  (s'.card - s.card, { m with sets := m.sets.insert key s' })

def sRem (mems : List String) : Nat × Memory :=
  match m.sets.lookup key with
  | none => (0, m)
  | some s =>
    let s' := s \ mems.toFinset
    (s.card - s'.card,
      { m with sets := if s' = ∅ then m.sets.erase key else m.sets.insert key s' })

/-- `Memory.SMembers`; the order is that of a map -/
def sMembers : Finset String := m.members key

def sweep : Memory :=
  { m with kv := m.kv.keys.foldl (fun s k => evict s now k) m.kv }

/-- `Memory.Scan`; the order is that of a map -/
def scan (start : String) : Finset String × Memory :=
  ((m.kv.keys.filter fun k => (m.live now k).isSome && start.toList.isPrefixOf k.toList).toFinset, m.sweep now)

/-! ## leases -/

variable {m m' : Memory} {now t ttl : Int} {key expected value : String} {b : Bool}

theorem live_touch (h : now ≤ t) (m : Memory) (key k : String) :
    (m.touch now key).live t k = m.live t k := live_evict h m.kv k key

/-- **A claim succeeds when the key holds nothing, and then it holds the claim.** -/
theorem setNX_spec (h : m.setNX now key value ttl = (b, m')) :
    b = true ∧ m.live now key = none ∧ m' = m.set now key value ttl ∨
      b = false ∧ m' = m ∧ ∃ e, m.live now key = some e := by
  unfold setNX at h
  cases hl : m.live now key with
  | none =>
    rw [hl] at h
    cases h
    exact .inl ⟨rfl, rfl, rfl⟩
  | some e =>
    rw [hl] at h
    cases h
    exact .inr ⟨rfl, rfl, e, rfl⟩

/-- one that compares first: it is done when the key holds the expected value -/
theorem compare_spec {f : Item String → Memory} (h : (match m.live now key with
      | none => (false, m.touch now key)
      | some e => if e.value ≠ expected then (false, m) else (true, f e)) = (b, m')) :
    (∃ e, b = true ∧ m.live now key = some e ∧ e.value = expected ∧ m' = f e) ∨
      b = false ∧ (m' = m ∨ m' = m.touch now key) ∧ ∀ e, m.live now key = some e → e.value ≠ expected := by
  cases hl : m.live now key with
  | none =>
    rw [hl] at h
    cases h
    exact .inr ⟨rfl, .inr rfl, fun e he => by cases he⟩
  | some e =>
    rw [hl] at h
    dsimp only at h
    split at h
    · rename_i hne
      cases h
      refine .inr ⟨rfl, .inl rfl, fun e' he' => ?_⟩
      cases he'
      exact hne
    · rename_i heq
      cases h
      exact .inl ⟨e, rfl, rfl, not_not.mp heq, rfl⟩

/-- **A renewal succeeds when the key holds the expected value, and then it goes on holding it.** -/
theorem compareAndExpire_spec (h : m.compareAndExpire now key expected ttl = (b, m')) :
    (∃ e, b = true ∧ m.live now key = some e ∧ e.value = expected ∧ m' = m.set now key expected ttl) ∨
      b = false ∧ (m' = m ∨ m' = m.touch now key) ∧ ∀ e, m.live now key = some e → e.value ≠ expected := by
  refine (compare_spec h).imp_left ?_
  rintro ⟨e, hb, hl, rfl, hm⟩
  exact ⟨e, hb, hl, rfl, hm⟩

/-- **A release succeeds when the key holds the expected value, and then it holds nothing.** -/
theorem compareAndDelete_spec (h : m.compareAndDelete now key expected = (b, m')) :
    (∃ e, b = true ∧ m.live now key = some e ∧ e.value = expected ∧ m' = { m with kv := m.kv.erase key }) ∨
      b = false ∧ (m' = m ∨ m' = m.touch now key) ∧ ∀ e, m.live now key = some e → e.value ≠ expected :=
  compare_spec h

theorem live_set_self (m : Memory) (now : Int) (key value : String) (ttl : Int) :
    (m.set now key value ttl).live now key = some ⟨value, due now ttl⟩ := by
  unfold Memory.live Memory.set
  rw [live_insert_self, dead_due]
  rfl

end Memory

end Coord
