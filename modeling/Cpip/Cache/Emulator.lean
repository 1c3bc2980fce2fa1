import Mathlib.Data.Finset.Card
import Cpip.Lib.Expiry
import Cpip.Cache.Glob

/-!
# Cache: the Redis emulator

`redis.Emulator`: one keyspace for texts and sets, in which a key holds one value of one kind, with an
expiry whatever its kind.  Every operation takes the time of the clock and returns its result and the
emulator after it.

* `lookup_put_self`, `lookup_del_self`, …   what an operation leaves under a key;
* `Lasting`, `setAt`  a set that does not expire.

Hashes, publishing and subscribing are left out, and the emulator is not closed.
-/

namespace Cache

open Expiry

inductive Value where
  | str (v : String)
  | set (s : Finset String)

structure Emulator where
  data : Store String Value := ∅

/-- a time to live that keeps the expiry a key has (`KeepTTL`) -/
def keepTTL : Int := -1

namespace Emulator

variable (e : Emulator) (now : Int) (key : String)

def live : Option (Item Value) := Expiry.live e.data now key

def touch : Emulator := ⟨evict e.data now key⟩

def text : Option String :=
  match e.live now key with
  | some ⟨.str v, _⟩ => some v
  | _ => none

def members : Option (Finset String) :=
  match e.live now key with
  | some ⟨.set s, _⟩ => some s
  | _ => none

def get : Option String × Emulator := (e.text now key, e.touch now key)

def put (v : Value) (expireAt : Option Int) : Emulator := ⟨e.data.insert key ⟨v, expireAt⟩⟩

def set (key value : String) (ttl : Int) : Emulator :=
  if ttl = keepTTL then e.put key (.str value) ((e.live now key).bind Item.expireAt)
  else e.put key (.str value) (due now ttl)

def setNX (key value : String) (ttl : Int) : Bool × Emulator :=
  match e.live now key with
  | some _ => (false, e)
  | none => (true, e.put key (.str value) (due now ttl))

def drop : Emulator := ⟨e.data.erase key⟩

def delOne (r : Nat × Emulator) (key : String) : Nat × Emulator :=
  match r.2.live now key with
  | some _ => (r.1 + 1, r.2.drop key)
  | none => (r.1, r.2.touch now key)

def del (keys : List String) : Nat × Emulator := keys.foldl (delOne now) (0, e)

def expire (ttl : Int) : Bool × Emulator :=
  match e.live now key with
  | some x => (true, e.put key x.value (due now ttl))
  | none => (false, e.touch now key)

def ttl : Int × Emulator :=
  match e.live now key with
  | none => (-2000000000, e.touch now key)
  | some x =>
    match x.expireAt with
    | none => (-1000000000, e)
    | some t => (t - now, e)

def compareAndDelete (key expected : String) : Bool × Emulator :=
  if e.text now key = some expected then (true, e.drop key) else (false, e.touch now key)

def compareAndExtend (key expected : String) (ttl : Int) : Bool × Emulator :=
  if e.text now key = some expected then (true, e.put key (.str expected) (due now ttl))
  else (false, e.touch now key)

def compareAndSet (key expected newValue : String) (ttl : Int) : Bool × Emulator :=
  if expected = "" then
    match e.live now key with
    | some _ => (false, e)
    | none => (true, e.put key (.str newValue) (due now ttl))
  else if e.text now key = some expected then (true, e.put key (.str newValue) (due now ttl))
  else (false, e.touch now key)

def mGet : List String → Emulator → List (Option String) × Emulator
  | [], e => ([], e)
  | k :: ks, e =>
    let r := mGet ks (e.get now k).2
    ((e.get now k).1 :: r.1, r.2)

/-- `Emulator.SetMany`; the order is that of a map -/
def setMany (pairs : List (String × String)) (ttl : Int) : Emulator :=
  pairs.foldl (fun e p => e.put p.1 (.str p.2) (due now ttl)) e

/-- `Emulator.SAdd`; a key that holds no set is overwritten -/
def sAdd (mems : List String) : Nat × Emulator :=
  match e.live now key with
  | some ⟨.set s, x⟩ =>
    let s' := s ∪ mems.toFinset
    (s'.card - s.card, e.put key (.set s') x)
  | _ => (mems.toFinset.card, e.put key (.set mems.toFinset) none)

def sRem (mems : List String) : Nat × Emulator :=
  match e.live now key with
  | some ⟨.set s, x⟩ =>
    let s' := s \ mems.toFinset
    (s.card - s'.card, if s' = ∅ then e.drop key else e.put key (.set s') x)
  | _ => (0, e.touch now key)

/-- `Emulator.SMembers`; the order is that of a map -/
def sMembers : Finset String × Emulator :=
  ((e.members now key).getD ∅, e.touch now key)

def sweep : Emulator := ⟨e.data.keys.foldl (fun s k => evict s now k) e.data⟩

def scanned (pattern key : String) : Bool :=
  pattern == "" || pattern == "*" || globMatch pattern.toList key.toList

/-- `Emulator.ScanKeys`; the order is that of a map -/
def scanKeys (pattern : String) : Finset String × Emulator :=
  ((e.data.keys.filter fun k => (e.live now k).isSome && scanned pattern k).toFinset, e.sweep now)

/-- **A scan for a plain text followed by a star finds the keys that start with the text.** -/
theorem scanned_plain {pattern : String} {p : List Char} (hpat : pattern.toList = p ++ ['*']) (hp : Plain p)
    (k : String) : scanned pattern k = p.isPrefixOf k.toList := by
  unfold scanned
  rw [hpat, globMatch_plain hp]
  cases hpre : p.isPrefixOf k.toList with
  | true => rw [Bool.or_true]
  | false =>
    simp only [Bool.or_false, Bool.or_eq_false_iff, beq_eq_false_iff_ne]
    refine ⟨fun hs => ?_, fun hs => ?_⟩
    · rw [hs] at hpat
      exact absurd hpat.symm (List.append_ne_nil_of_right_ne_nil _ (List.cons_ne_nil _ _))
    rw [hs] at hpat
    have hnil : p = [] := List.append_left_eq_self.mp hpat.symm
    rw [hnil] at hpre
    cases hpre

/-! ## what an operation leaves under a key -/

section
variable {e : Emulator} {now : Int} {k key : String}

theorem lookup_put_self (v : Value) (x : Option Int) : (e.put key v x).data.lookup key = some ⟨v, x⟩ :=
  AList.lookup_insert _

theorem lookup_put_ne (h : k ≠ key) (v : Value) (x : Option Int) :
    (e.put key v x).data.lookup k = e.data.lookup k := AList.lookup_insert_ne h

theorem lookup_drop_self : (e.drop key).data.lookup key = none := AList.lookup_erase _ _

theorem lookup_drop_ne (h : k ≠ key) : (e.drop key).data.lookup k = e.data.lookup k := AList.lookup_erase_ne h

theorem lookup_touch_ne (h : k ≠ key) : (e.touch now key).data.lookup k = e.data.lookup k := by
  rcases lookup_evict e.data now k key with hsame | ⟨heq, -⟩
  · exact hsame
  · exact absurd heq h

theorem lookup_touch (k : String) {x : Item Value} (h : (e.touch now key).data.lookup k = some x) :
    e.data.lookup k = some x := by
  rcases lookup_evict e.data now k key with hsame | ⟨-, hnone, -⟩
  · exact hsame ▸ h
  · cases hnone.symm.trans h

theorem lookup_touch_dead (h : e.live now key = none) : (e.touch now key).data.lookup key = none := by
  rcases lookup_evict e.data now key key with hsame | ⟨-, hnone, -⟩
  · cases hx : e.data.lookup key with
    | none => exact hsame.trans hx
    | some x =>
      have hdead := live_eq_none.mp h x hx
      simp only [touch, evict, hx, hdead, if_true]
      exact AList.lookup_erase _ _
  · exact hnone

theorem lookup_of_text {v : String} (h : e.text now key = some v) : ∃ x, e.data.lookup key = some ⟨.str v, x⟩ := by
  unfold text at h
  split at h
  · rename_i v' x hlive
    cases h
    exact ⟨x, (live_eq_some.mp hlive).1⟩
  · cases h

theorem lookup_delOne (r : Nat × Emulator) (key k : String) :
    (delOne now r key).2.data.lookup k = if k = key then none else r.2.data.lookup k := by
  unfold delOne
  by_cases hk : k = key
  · subst hk
    rw [if_pos rfl]
    cases hlive : r.2.live now k with
    | some x => exact lookup_drop_self
    | none => exact lookup_touch_dead hlive
  · rw [if_neg hk]
    cases r.2.live now key with
    | some x => exact lookup_drop_ne hk
    | none => exact lookup_touch_ne hk

theorem lookup_del (e : Emulator) (now : Int) (keys : List String) (k : String) :
    (e.del now keys).2.data.lookup k = if k ∈ keys then none else e.data.lookup k := by
  have hfold : ∀ r : Nat × Emulator,
      (keys.foldl (delOne now) r).2.data.lookup k = if k ∈ keys then none else r.2.data.lookup k := by
    induction keys with
    | nil => exact fun r => rfl
    | cons j keys ih =>
      intro r
      rw [List.foldl_cons, ih, lookup_delOne]
      by_cases hk : k = j <;> simp [hk]
  exact hfold (0, e)

theorem lookup_del_self : (e.del now [key]).2.data.lookup key = none := by
  rw [lookup_del, if_pos (List.mem_singleton_self key)]

theorem lookup_del_ne (h : k ≠ key) : (e.del now [key]).2.data.lookup k = e.data.lookup k := by
  rw [lookup_del, if_neg (mt List.mem_singleton.mp h)]

theorem lookup_sAdd_ne (h : k ≠ key) (mems : List String) :
    (e.sAdd now key mems).2.data.lookup k = e.data.lookup k := by
  unfold sAdd
  split <;> exact lookup_put_ne h _ _

theorem lookup_sRem_ne (h : k ≠ key) (mems : List String) :
    (e.sRem now key mems).2.data.lookup k = e.data.lookup k := by
  unfold sRem
  split
  · dsimp only
    split
    · exact lookup_drop_ne h
    · exact lookup_put_ne h _ _
  · exact lookup_touch_ne h

theorem compareAndSet_cases {expected : String} (newValue : String) (ttl : Int) (h : expected ≠ "") :
    (e.text now key = some expected ∧
      e.compareAndSet now key expected newValue ttl = (true, e.put key (.str newValue) (due now ttl))) ∨
    (e.text now key ≠ some expected ∧
      e.compareAndSet now key expected newValue ttl = (false, e.touch now key)) := by
  unfold compareAndSet
  rw [if_neg h]
  by_cases ht : e.text now key = some expected
  · exact .inl ⟨ht, if_pos ht⟩
  · exact .inr ⟨ht, if_neg ht⟩

theorem text_of_lookup_touch {v : String} {x : Option Int}
    (h : (e.touch now key).data.lookup key = some ⟨.str v, x⟩) : e.text now key = some v := by
  cases hlive : e.live now key with
  | none => cases (lookup_touch_dead hlive).symm.trans h
  | some y =>
    have hy := (live_eq_some.mp hlive).1.symm.trans (lookup_touch _ h)
    cases hy
    unfold text
    rw [hlive]

/-! ## sets that do not expire -/

def Lasting (e : Emulator) (key : String) : Prop := ∀ x, e.data.lookup key = some x → x.expireAt = none

def setAt (e : Emulator) (key : String) : Finset String :=
  match e.data.lookup key with
  | some ⟨.set s, _⟩ => s
  | _ => ∅

theorem Lasting.congr {e' : Emulator} (h : e.Lasting key) (heq : e'.data.lookup key = e.data.lookup key) :
    e'.Lasting key := by
  unfold Lasting
  rw [heq]
  exact h

theorem setAt_congr {e' : Emulator} (heq : e'.data.lookup key = e.data.lookup key) : e'.setAt key = e.setAt key := by
  unfold setAt
  rw [heq]

section
variable (h : e.Lasting key)
include h

variable (now : Int)

theorem live_of_lasting : e.live now key = e.data.lookup key := by
  cases hx : e.data.lookup key with
  | none =>
    refine live_eq_none.mpr fun x hx' => ?_
    cases hx.symm.trans hx'
  | some x =>
    refine live_eq_some.mpr ⟨hx, ?_⟩
    unfold Item.dead
    rw [h x hx]

theorem lookup_touch_of_lasting :
    (e.touch now k).data.lookup key = e.data.lookup key := by
  rcases lookup_evict e.data now key k with hsame | ⟨-, -, x, hx, hdead⟩
  · exact hsame
  unfold Item.dead at hdead
  rw [h x hx] at hdead
  cases hdead

theorem setAt_sMembers : (e.sMembers now key).1 = e.setAt key := by
  unfold sMembers members setAt
  rw [live_of_lasting h]
  split
  · rfl
  · rfl

theorem lookup_sAdd_of_lasting (member : String) :
    (e.sAdd now key [member]).2.data.lookup key = some ⟨.set (e.setAt key ∪ {member}), none⟩ := by
  unfold sAdd setAt
  rw [live_of_lasting h]
  split
  · rename_i s x hx
    cases h _ hx
    exact lookup_put_self _ _
  · rw [Finset.empty_union]
    exact lookup_put_self _ _

theorem lookup_sRem_of_lasting (member : String) :
    (e.sRem now key [member]).2.Lasting key ∧ (e.sRem now key [member]).2.setAt key = e.setAt key \ {member} := by
  unfold sRem
  rw [live_of_lasting h]
  split
  · rename_i s x hx
    cases h _ hx
    have hset : e.setAt key = s := by
      unfold setAt
      rw [hx]
    dsimp only
    rw [hset]
    split
    · rename_i hempty
      refine ⟨fun y hy => (by cases lookup_drop_self.symm.trans hy), ?_⟩
      unfold setAt
      rw [lookup_drop_self]
      exact hempty.symm
    · refine ⟨fun y hy => (by cases (lookup_put_self _ _).symm.trans hy; rfl), ?_⟩
      unfold setAt
      rw [lookup_put_self]
      rfl
  · rename_i hno
    have hempty : e.setAt key = ∅ := by
      unfold setAt
      split
      · rename_i s x hx
        exact absurd hx (hno s x)
      · rfl
    have hsame := lookup_touch_of_lasting (k := key) h now
    refine ⟨h.congr hsame, ?_⟩
    rw [setAt_congr hsame, hempty, Finset.empty_sdiff]

end

end

end Emulator

end Cache
