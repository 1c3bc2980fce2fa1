import Mathlib.Data.List.AList
import Mathlib.Tactic.Common

/-!
# Maps whose items expire

A finite map from keys to items with an expiry, read at a time: an item is dead from its expiry on,
and a read that finds a dead item removes it.

* `Item`, `Item.dead`  a value with its expiry;
* `live`  what a key holds at a time;
* `evict`  the map after a read: **it holds the same at every later time**.
-/

namespace Expiry

variable {α β : Type}

/-- a value with its expiry; `none` means that it does not expire -/
structure Item (β : Type) where
  value : β
  expireAt : Option Int

def Item.dead (e : Item β) (now : Int) : Bool :=
  match e.expireAt with
  | none => false
  | some t => t ≤ now

/-- the expiry of an item that is written now; a time to live that is not positive is no bound -/
def due (now ttl : Int) : Option Int := if ttl ≤ 0 then none else some (now + ttl)

abbrev Store (α β : Type) := AList fun _ : α => Item β

theorem dead_mono {e : Item β} {now t : Int} (h : now ≤ t) (hd : e.dead now = true) : e.dead t = true := by
  unfold Item.dead at *
  cases he : e.expireAt with
  | none =>
    rw [he] at hd
    cases hd
  | some x =>
    rw [he] at hd
    rw [decide_eq_true_eq] at hd ⊢
    omega

variable [DecidableEq α] {s : Store α β} {now t : Int} {k j : α} {e : Item β}

def live (s : Store α β) (now : Int) (k : α) : Option (Item β) :=
  (s.lookup k).filter fun e => !e.dead now

def evict (s : Store α β) (now : Int) (k : α) : Store α β :=
  match s.lookup k with
  | some e => if e.dead now then s.erase k else s
  | none => s

theorem live_eq_some : live s now k = some e ↔ s.lookup k = some e ∧ e.dead now = false := by
  unfold live
  rw [Option.filter_eq_some_iff]
  constructor
  · rintro ⟨hl, hd⟩
    exact ⟨hl, by simpa using hd⟩
  · rintro ⟨hl, hd⟩
    exact ⟨hl, by simp [hd]⟩

theorem live_eq_none : live s now k = none ↔ ∀ e, s.lookup k = some e → e.dead now = true := by
  unfold live
  rw [Option.filter_eq_none_iff]
  constructor
  · intro h e he
    simpa using h e he
  · intro h e he
    simpa using h e he

theorem mem_keys_of_live (h : (live s now k).isSome = true) : k ∈ s.keys := by
  obtain ⟨e, he⟩ := Option.isSome_iff_exists.mp h
  have hl := (live_eq_some.mp he).1
  exact AList.lookup_isSome.mp (by rw [hl]; rfl)

theorem live_congr {s' : Store α β} (h : s'.lookup k = s.lookup k) : live s' now k = live s now k := by
  unfold live
  rw [h]

theorem live_insert_ne (h : k ≠ j) (e : Item β) : live (s.insert j e) now k = live s now k :=
  live_congr (AList.lookup_insert_ne h)

theorem live_erase_ne (h : k ≠ j) : live (s.erase j) now k = live s now k :=
  live_congr (AList.lookup_erase_ne h)

theorem live_erase_self : live (s.erase k) now k = none := by
  unfold live
  rw [AList.lookup_erase]
  rfl

theorem live_insert_self : live (s.insert k e) now k = if e.dead now then none else some e := by
  unfold live
  cases hd : e.dead now <;> simp [Option.filter, hd]

theorem lookup_evict (s : Store α β) (now : Int) (k j : α) : (evict s now j).lookup k = s.lookup k ∨
      k = j ∧ (evict s now j).lookup k = none ∧ ∃ e, s.lookup k = some e ∧ e.dead now = true := by
  unfold evict
  cases hj : s.lookup j with
  | none => exact .inl rfl
  | some e =>
    cases hd : e.dead now with
    | false => exact .inl (by simp [hd])
    | true =>
      dsimp only
      rw [if_pos hd]
      by_cases hkj : k = j
      · subst hkj
        exact .inr ⟨rfl, AList.lookup_erase .., e, hj, hd⟩
      · exact .inl (AList.lookup_erase_ne hkj)

/-- **A read changes nothing of what the map holds from then on.** -/
theorem live_evict (h : now ≤ t) (s : Store α β) (k j : α) : live (evict s now j) t k = live s t k := by
  rcases lookup_evict s now k j with hl | ⟨-, hn, e, he, hd⟩
  · exact live_congr hl
  have hgone : live s t k = none := by
    refine live_eq_none.mpr fun e' he' => ?_
    cases he.symm.trans he'
    exact dead_mono h hd
  rw [hgone]
  refine live_eq_none.mpr fun e' he' => ?_
  cases hn.symm.trans he'

theorem live_sweep (h : now ≤ t) (ks : List α) (s : Store α β) (k : α) :
    live (ks.foldl (fun s j => evict s now j) s) t k = live s t k := by
  induction ks generalizing s with
  | nil => rfl
  | cons j ks ih => rw [List.foldl_cons, ih, live_evict h]

theorem live_filter (h : now ≤ t) (s : Store α β) (k : α) :
    live s t k = (live s now k).filter fun e => !e.dead t := by
  unfold live
  rw [Option.filter_filter]
  congr 1
  funext e
  cases hd : e.dead now with
  | false => rfl
  | true =>
    rw [dead_mono h hd]
    rfl

theorem dead_due (now ttl : Int) (v : β) : (Item.mk v (due now ttl)).dead now = false := by
  unfold due
  by_cases h : ttl ≤ 0
  · rw [if_pos h]
    rfl
  rw [if_neg h]
  show decide (now + ttl ≤ now) = false
  simp only [decide_eq_false_iff_not]
  omega

end Expiry
